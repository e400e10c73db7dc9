import Rim.Codec
import Rim.Error
import Rim.Proofs.BinaryRoundTrip
import Rim.Proofs.BindingReach
import Rim.Proofs.CanonicalForms
import Rim.Proofs.CodecRun
import Rim.Proofs.DecodedBound
import Rim.Proofs.EmittedProfile
import Rim.Proofs.EqualRecords
import Rim.Proofs.Extension.Run
import Rim.Proofs.LaterSetup
import Rim.Proofs.MemberOrder
import Rim.Proofs.OidForms
import Rim.Proofs.OwnProfile
import Rim.Proofs.ProfileForms
import Rim.Proofs.SetupRun
import Rim.Proofs.StrictText
import Rim.Proofs.Strictness
import Rim.Proofs.TextRoundTrip
import Rim.Proofs.Transparency
import Rim.Proofs.ValidEncodes
import Rim.Proofs.Validation.FirstViolation
import Rim.Proofs.ValidityForms
import Rim.Proofs.VariantForms
import Rim.Proofs.WholeSeconds
import Rim.Proofs.WrittenKeys
import Rim.Record.Meta
