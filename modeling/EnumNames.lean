import EnumNames.Go.File
import EnumNames.Policy.Descriptor
import EnumNames.Policy.Document
import EnumNames.Proofs.Canonical
import EnumNames.Proofs.Declarations
import EnumNames.Proofs.Go.Arrays
import EnumNames.Proofs.Go.Guard
import EnumNames.Proofs.Go.Identifiers
import EnumNames.Proofs.Go.Injective
import EnumNames.Proofs.Go.Method
import EnumNames.Proofs.Go.Narrow
import EnumNames.Proofs.Go.Quoted
import EnumNames.Proofs.Go.SourceText
import EnumNames.Proofs.Go.Writing
import EnumNames.Proofs.Log
import EnumNames.Proofs.Numerals
import EnumNames.Proofs.Packing
import EnumNames.Proofs.Policy.Written
import EnumNames.Proofs.Position
import EnumNames.Proofs.RunCount
import EnumNames.Proofs.Spans
