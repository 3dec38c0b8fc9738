import Haxify.Main
import Haxify.Proofs.Aliases
import Haxify.Proofs.BracketsOfFiles
import Haxify.Proofs.Decorators
import Haxify.Proofs.Destructuring
import Haxify.Proofs.Enumerations
import Haxify.Proofs.ExternMembers
import Haxify.Proofs.ExternNames
import Haxify.Proofs.ForeignReexports
import Haxify.Proofs.FrameOfRules
import Haxify.Proofs.FunctionTypes
import Haxify.Proofs.Independence
import Haxify.Proofs.Inheritance
import Haxify.Proofs.Jumps
import Haxify.Proofs.Numerals
import Haxify.Proofs.Parentheses
import Haxify.Proofs.Shadowing
import Haxify.Proofs.Specifiers
import Haxify.Proofs.Splicing
import Haxify.Proofs.Spreads
import Haxify.Proofs.StarExports
import Haxify.Proofs.Templates
import Haxify.Proofs.Temporaries
import Haxify.Proofs.Unions
import Haxify.Proofs.WritingTwice
