import InfoProtocol.Lexicon.Declared
import InfoProtocol.Proofs.Instance.Confluence
import InfoProtocol.Proofs.Instance.Replay
import InfoProtocol.Proofs.Transport.Delivery
import InfoProtocol.Proofs.Protocol.Compiled
import InfoProtocol.Proofs.Instance.Unvalidated
import InfoProtocol.Proofs.Instance.Key
import InfoProtocol.Proofs.Instance.Recorded
import InfoProtocol.Proofs.Instance.Cells
import InfoProtocol.Proofs.Instance.KeyViews
import InfoProtocol.Proofs.Token.Placed
import InfoProtocol.Proofs.Protocol.Layout
import InfoProtocol.Proofs.Instance.Difference
import InfoProtocol.Proofs.Transport.Shell
import InfoProtocol.Proofs.Transport.Widened
import InfoProtocol.Proofs.Grammar.Diagnosis
import InfoProtocol.Proofs.Graph.WhitePath
import InfoProtocol.Proofs.Lexeme.Progress
import InfoProtocol.Proofs.Token.Lines
