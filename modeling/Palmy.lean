import Palmy.PropositionPower
import Palmy.SignedCalls
import Palmy.VestingCollection
import Palmy.WithoutDelegations
import Palmy.Authorisation
import Palmy.SnapshotScan
import Palmy.SnapshotWrites
import Palmy.Library.EventReplay
import Palmy.PowerAnnouncements
import Palmy.PowerEvents
import Palmy.SameBlock
import Palmy.VestingRegistry
import Palmy.VestingCurve
import Palmy.VestingRevocation
import Palmy.VestingLocks
import Palmy.AdminUpgradeabilityProxy
import Palmy.PlmyLedger
import Palmy.PlmyVesting
import Palmy.ProxyAdministration
import Palmy.ProxyRefinement
import Palmy.VestingEvents
import Palmy.AllowanceCharges
import Palmy.PalmyRewardsVault
import Palmy.RewardsVault
import Palmy.VestingBatch
import Palmy.VestingOwnership
import Palmy.VestingViews
import Palmy.DoubleTransferHelper
import Palmy.TransferHook
import Palmy.VestingRoles
