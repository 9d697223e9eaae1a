import CommandWord.Main
import CommandWord.Proofs.Bits.Mirror
import CommandWord.Proofs.Bits.Reading
import CommandWord.Proofs.Bits.Writing
import CommandWord.Proofs.Codec.CodeSpace
import CommandWord.Proofs.Codec.Compilation
import CommandWord.Proofs.Codec.Counting
import CommandWord.Proofs.Codec.DecodeOrder
import CommandWord.Proofs.Codec.ExportedText
import CommandWord.Proofs.Codec.Fingerprint
import CommandWord.Proofs.Codec.HeaderClasses
import CommandWord.Proofs.Codec.Masking
import CommandWord.Proofs.Codec.Outcome
import CommandWord.Proofs.Codec.PrintedHeaders
import CommandWord.Proofs.Codec.Reordering
import CommandWord.Proofs.Codec.RoundTrip
import CommandWord.Proofs.Codec.Sensitivity
import CommandWord.Proofs.Codec.Sentinel
import CommandWord.Proofs.Codec.Stream
import CommandWord.Proofs.Codec.UnusedBits
import CommandWord.Proofs.CommandLine.AllOrNothing
import CommandWord.Proofs.CommandLine.MaskText
import CommandWord.Proofs.Header.Budget
import CommandWord.Proofs.Header.ClosedForm
import CommandWord.Proofs.Header.Offence
import CommandWord.Proofs.Registry.Duplicates
import CommandWord.Proofs.Registry.Naming
import CommandWord.Proofs.Sample.Compilation
import CommandWord.Proofs.Source.Java
import CommandWord.Proofs.Source.JavaNames
import CommandWord.Proofs.Source.Rust
