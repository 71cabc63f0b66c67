import Conform.Main
import Conform.Service
import Conform.Ty.Fits
import Conform.Proofs.Compile
import Conform.Proofs.Declaration.Written
import Conform.Proofs.Engine
import Conform.Proofs.Ty.Cast
import Conform.Proofs.Ty.Fits
import Conform.Proofs.Ty.Signature
import Conform.Proofs.Ty.Preorder
import Conform.Proofs.Value.Decoded
import Conform.Proofs.Ty.NumericKeys
import Conform.Proofs.Matched
import Conform.Proofs.Ty.CastArray
import Conform.Proofs.Value.Sending
import Conform.Proofs.Ty.Sending
import Conform.Proofs.Ty.Inclusion
import Conform.Proofs.Engine.Wording
import Conform.Proofs.Validators.Shared
import Conform.Proofs.Source.Emit
import Conform.Proofs.Declaration.Resolution
import Conform.Proofs.Store.Directory
import Conform.Proofs.Declaration.Legible
import Conform.Proofs.Service.Status
import Conform.Proofs.Json.Numerals
import Conform.Proofs.Value.Encoding
import Conform.Proofs.Ty.Encoding
import Conform.Proofs.Plan
import Conform.Proofs.Service.Envelope
import Conform.Proofs.Ty.Unordered
import Conform.Proofs.Ty.CanCast
import Conform.Proofs.Binary.Integers
import Conform.Proofs.Ty.Shape
import Conform.Proofs.Ty.Projection
import Conform.Proofs.Ty.Culprit
import Conform.Proofs.Declaration.KeyedArrays
import Conform.Proofs.Declaration.ShapeKeys
import Conform.Proofs.Declaration.Safety
import Conform.Proofs.Recent.History
import Conform.Proofs.Engine.Aliases
import Conform.Proofs.Validators.Failure
import Conform.Proofs.Artifact.Untrusted
import Conform.Proofs.Artifact.Consistent
import Conform.Proofs.Compile.Refusal
import Conform.Proofs.Ty.MemberNames
import Conform.Proofs.Source.Clean
import Conform.Proofs.Source.Prose
import Conform.Proofs.Source.File
import Conform.Proofs.Declaration.Spacing
import Conform.Proofs.Command.Output
import Conform.Proofs.Value.IntegerText
import Conform.Proofs.Binary.Range
import Conform.Proofs.Declaration.NumberTokens
