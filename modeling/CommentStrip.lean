import CommentStrip.Fixture.Tree
import CommentStrip.Main
import CommentStrip.Proofs.Reader
import CommentStrip.Proofs.Reading
import CommentStrip.Proofs.Kept
import CommentStrip.Proofs.Idempotence
import CommentStrip.Proofs.Clean
import CommentStrip.Proofs.LineComment
import CommentStrip.Proofs.Process
import CommentStrip.Proofs.Run
import CommentStrip.Proofs.Rerun
import CommentStrip.Proofs.TomlDocument
import CommentStrip.Proofs.Console
import CommentStrip.Proofs.Size
import CommentStrip.Proofs.Below
import CommentStrip.Proofs.Order
import CommentStrip.Proofs.Search
import CommentStrip.Proofs.Config
import CommentStrip.Proofs.Fixture
import CommentStrip.Proofs.FixtureRun
import CommentStrip.Proofs.Following
import CommentStrip.Proofs.Gaps
import CommentStrip.Proofs.LineEnd
import CommentStrip.Proofs.FixtureText
import CommentStrip.Proofs.Random
import CommentStrip.Proofs.Repeat
import CommentStrip.Proofs.OffsetScan
import CommentStrip.Proofs.FilterText
