import HathorApp.ProgramLogic
import HathorApp.StreamDecoder
import HathorApp.TraceRun
import HathorApp.Types
import HathorApp.Buffer
import HathorApp.Platform
import HathorApp.Format
import HathorApp.Transaction
import HathorApp.Token
import HathorApp.Device
import HathorApp.SelectionSort
import HathorApp.Display
import HathorApp.Handlers
import HathorApp.AppMain
import HathorApp.TxStream
import HathorApp.DecoderSpec
import HathorApp.ChunkedDecoding
import HathorApp.DeviceSpec
import HathorApp.DisplaySpec
import HathorApp.TokenSpec
import HathorApp.CommandSpec
import HathorApp.SignTxSpec
import HathorApp.StepSpec
import HathorApp.Runs
import HathorApp.BufferBounds
import HathorApp.ApprovalScreen
import HathorApp.SigningDigest
import HathorApp.TokenBinding
import HathorApp.TokenRegistry
import HathorApp.TokenGrammar
import HathorApp.AmountText
import HathorApp.Base58
import HathorApp.ChangeAddress
import HathorApp.Footprint
import HathorApp.TokenTable
import HathorApp.DerivationPaths
import HathorApp.RefusedSign
import HathorApp.StoredSecret
import HathorApp.Replies
import HathorApp.TokenRoundTrip
import HathorApp.ResetSignatures
import HathorApp.FirstChunk
import HathorApp.CancelledSession
import HathorApp.IntegerText
import HathorApp.FixedPointText
import HathorApp.PathText
import HathorApp.Base58RoundTrip
import HathorApp.ValueText
import HathorApp.OutputCodec
import HathorApp.ChangeInfo
import HathorApp.ChangeOutputs
import HathorApp.ShownOutput
import HathorApp.Transcript
import HathorApp.Confirmation
import HathorApp.ConfirmationRun
import HathorApp.ApprovedTransaction
import HathorApp.ShownSymbol
import HathorApp.OneReply
import HathorApp.BufferLaw
import HathorApp.SavedOutputs
import HathorApp.ApprovedScreens
import HathorApp.StreamCut
import HathorApp.SigningRequest
import HathorApp.Exchange
import HathorApp.AskedOutputs
import HathorApp.IoFootprint
import HathorApp.FixedField
import HathorApp.ByteAccess
import HathorApp.ReplyFrames
import HathorApp.Requests
import HathorApp.GivenOut
import HathorApp.SignedSession
import HathorApp.ArrayAccess
import HathorApp.TwoRuns
import HathorApp.Forgetting
import HathorApp.OwnReplies
import HathorApp.Directory
import HathorApp.Patience
import HathorApp.PressBound
import HathorApp.SignedText
import HathorApp.HexText
import HathorApp.TokenService
