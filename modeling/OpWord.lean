import OpWord.Assembly.Program
import OpWord.Instruction.Edit
import OpWord.Listing
import OpWord.Proofs.FieldAccess
import OpWord.Proofs.OperandAccess
import OpWord.Proofs.Codec
import OpWord.Proofs.Parts
import OpWord.Proofs.EditRun
import OpWord.Proofs.Grammar
import OpWord.Proofs.LineReading
import OpWord.Proofs.TextParsing
import OpWord.Proofs.ReadBack
import OpWord.Proofs.Canonical
import OpWord.Proofs.LineByLine
import OpWord.Proofs.Rejection
import OpWord.Proofs.StrictAssembly
import OpWord.Proofs.Joining
import OpWord.Proofs.HiddenBits
import OpWord.Proofs.SurfaceForm
import OpWord.Proofs.Emitted
import OpWord.Proofs.Recognition
import OpWord.Proofs.TableShape
import OpWord.Proofs.TableReading
import OpWord.Proofs.WideOperands
import OpWord.Proofs.FirstOffence
import OpWord.Proofs.ListingText
import OpWord.Proofs.FieldArithmetic
import OpWord.Proofs.SignedOperand
import OpWord.Proofs.LineEndings
import OpWord.Proofs.OperandWrites
import OpWord.Proofs.DepositOrder
import OpWord.Proofs.MnemonicLookup
