import BorrowLang.Main
import BorrowLang.Proofs.Captures.Run
import BorrowLang.Proofs.Leaks.Returns
import BorrowLang.Proofs.Lifetimes.Program
import BorrowLang.Syntax.Names
import BorrowLang.Proofs.CallDepth
import BorrowLang.Proofs.Monitoring.Run
import BorrowLang.Proofs.Stacks.Aliasing
import BorrowLang.Proofs.Tracking.Operations
import BorrowLang.Proofs.Tracking.Forks
import BorrowLang.Proofs.Tracking.Exclusion
import BorrowLang.Proofs.Tracking.Join
import BorrowLang.Proofs.Scoping.Shelter
import BorrowLang.Proofs.Scoping.Steps
import BorrowLang.Proofs.Scoping.Expressions
import BorrowLang.Proofs.Scoping.Statements
import BorrowLang.Proofs.Scoping.Points
import BorrowLang.Proofs.Parsing.Roundtrip
import BorrowLang.Proofs.Parsing.Refusals
import BorrowLang.Proofs.Moves.Passes
import BorrowLang.Proofs.Naming.Program
import BorrowLang.Proofs.Reordering
import BorrowLang.Proofs.Numbers.Run
import BorrowLang.Proofs.CommandLine.Files
import BorrowLang.Proofs.Extents.Arguments
import BorrowLang.Proofs.Extents.Mentions
import BorrowLang.Proofs.Tracking.Holders
import BorrowLang.Proofs.Tracking.Requests
import BorrowLang.Proofs.Tracking.Mutability
import BorrowLang.Proofs.Extents.Copies
import BorrowLang.Proofs.Templates
import BorrowLang.Proofs.Stacks.Permanence
import BorrowLang.Proofs.Leaving.Run
import BorrowLang.Proofs.Searches.Checks
import BorrowLang.Proofs.Numbers.Arithmetic
import BorrowLang.Proofs.Annotations
import BorrowLang.Proofs.Parsing.TypeTexts
import BorrowLang.Proofs.Locations.Nodes
import BorrowLang.Proofs.Places
import BorrowLang.Proofs.Extents.Later
import BorrowLang.Proofs.Uses.Run
