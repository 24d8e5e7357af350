import Lumenia.Contracts.LumenDropExits
import Lumenia.Contracts.Signatures
import Lumenia.Extension.AccountSafety
import Lumenia.Extension.Amount
import Lumenia.Extension.Verdict
import Lumenia.Sponsor.AntiDrainSafety
import Lumenia.Sponsor.BlindChecksSafety
import Lumenia.Sponsor.CapsRefusal
import Lumenia.Sponsor.CapsSafety
import Lumenia.Sponsor.CctpMessages
import Lumenia.Sponsor.CctpRelay
import Lumenia.Sponsor.CctpRelaySafety
import Lumenia.Sponsor.ChannelsSafety
import Lumenia.Sponsor.DepositGate
import Lumenia.Sponsor.DepositSafety
import Lumenia.Sponsor.Governance
import Lumenia.Sponsor.HandlesFederation
import Lumenia.Sponsor.HandlesLookalikes
import Lumenia.Sponsor.Handout
import Lumenia.Sponsor.IdentitySafety
import Lumenia.Sponsor.IdentityTickets
import Lumenia.Sponsor.IpBucket
import Lumenia.Sponsor.KillSwitchSafety
import Lumenia.Sponsor.OnboardingSafety
import Lumenia.Sponsor.OutageSafety
import Lumenia.Sponsor.PayoutSweep
import Lumenia.Sponsor.PayoutSweepSafety
import Lumenia.Sponsor.PilotBudget
import Lumenia.Sponsor.PilotRequests
import Lumenia.Sponsor.ProofUses
import Lumenia.Sponsor.RecoveryBudgetSafety
import Lumenia.Sponsor.RecoveryRowSafety
import Lumenia.Sponsor.RecoveryTicketSafety
import Lumenia.Sponsor.RelayBids
import Lumenia.Sponsor.SubrequestsSafety
import Lumenia.Sponsor.WatchdogHalt
import Lumenia.Stellar.Double
import Lumenia.Theory.Base64
import Lumenia.Theory.Excerpt
import Lumenia.Theory.Replace
import Lumenia.Theory.Rounding
import Lumenia.Theory.UriComponent
import Lumenia.Theory.UrlEncoded
import Lumenia.Web.BackupHistory
import Lumenia.Web.ClaimError
import Lumenia.Web.ClaimErrorSafety
import Lumenia.Web.ClaimLink
import Lumenia.Web.ClaimLinkReading
import Lumenia.Web.ClaimPreview
import Lumenia.Web.ClaimLinkSafety
import Lumenia.Web.ClaimPreviewSafety
import Lumenia.Web.KeystoreSafety
import Lumenia.Web.LinkState
import Lumenia.Web.PaymentUri
import Lumenia.Web.SendSafety
import Lumenia.Web.SentLinks
import Lumenia.Web.Settling
import Lumenia.Web.Submission
import Lumenia.Web.Swap
