import PostfixCalculator.Calculator.Panel
import PostfixCalculator.Startup
import PostfixCalculator.Grammar
import PostfixCalculator.Tree.Infix
import PostfixCalculator.Proofs.Conversion
import PostfixCalculator.Proofs.Building
import PostfixCalculator.Proofs.Precedence
import PostfixCalculator.Proofs.Pattern
import PostfixCalculator.Proofs.Rounding
import PostfixCalculator.Proofs.Numerals
import PostfixCalculator.Proofs.RoundTrip
import PostfixCalculator.Proofs.Adjacency
import PostfixCalculator.Proofs.Insertion
import PostfixCalculator.Proofs.Preparation
import PostfixCalculator.Proofs.Positions
import PostfixCalculator.Proofs.Grouping
import PostfixCalculator.Proofs.Order
import PostfixCalculator.Proofs.Spacing
import PostfixCalculator.Proofs.Agreement
import PostfixCalculator.Proofs.Memory
import PostfixCalculator.Proofs.Display
import PostfixCalculator.Proofs.Keypad
import PostfixCalculator.Proofs.Fields
import PostfixCalculator.Proofs.Wording
import PostfixCalculator.Proofs.Calls
import PostfixCalculator.Proofs.Operands
import PostfixCalculator.Proofs.Evaluation
import PostfixCalculator.Proofs.Equality
import PostfixCalculator.Proofs.Cutting
import PostfixCalculator.Proofs.Drawing
import PostfixCalculator.Proofs.Pairs
import PostfixCalculator.Proofs.Listing
import PostfixCalculator.Proofs.Frames
import PostfixCalculator.Proofs.Leaves
import PostfixCalculator.Proofs.Transcript
import PostfixCalculator.Proofs.Turns
import PostfixCalculator.Proofs.Continuation
