import PhpSharp.Files.Machine
import PhpSharp.Main
import PhpSharp.Proofs.CSharp.Comment
import PhpSharp.Proofs.CSharp.DateLine
import PhpSharp.Proofs.CSharp.Emitted
import PhpSharp.Proofs.Conversion.Isolation
import PhpSharp.Proofs.Conversion.OutputPaths
import PhpSharp.Proofs.Conversion.Partition
import PhpSharp.Proofs.Conversion.Reads
import PhpSharp.Proofs.Conversion.Rerun
import PhpSharp.Proofs.Conversion.Ungenerated
import PhpSharp.Proofs.Conversion.Writing
import PhpSharp.Proofs.Fidelity
import PhpSharp.Proofs.Php.Anonymous
import PhpSharp.Proofs.Php.Cursor
import PhpSharp.Proofs.Php.LetterCase
import PhpSharp.Proofs.Php.NestedQuotes
import PhpSharp.Proofs.Php.Places
import PhpSharp.Proofs.Php.Truncation
import PhpSharp.Proofs.Reflection.Arguments
import PhpSharp.Proofs.Reflection.Checkout
import PhpSharp.Proofs.Reflection.Comments
import PhpSharp.Proofs.Reflection.Constants
import PhpSharp.Proofs.Reflection.Documentation
import PhpSharp.Proofs.Reflection.Edges
import PhpSharp.Proofs.Reflection.Floats
import PhpSharp.Proofs.Reflection.Interpolation
import PhpSharp.Proofs.Reflection.Objects
import PhpSharp.Proofs.Reflection.Sentence
import PhpSharp.Proofs.Settings.Rebase
import PhpSharp.Proofs.Files.Grown
