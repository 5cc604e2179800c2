import Challenger.PollerOnce
import Challenger.PollerRetry
import Challenger.PollerBehind
import Challenger.PollerGauge
import Challenger.Nonces
import Challenger.Fallback
import Challenger.Validation
import Challenger.ProcessorCancel
import Challenger.ProcessorClosed
import Challenger.ProcessorIsolation
import Challenger.ProcessorVerdicts
import Challenger.ProcessorCounter
import Challenger.SystemOrder
import Challenger.Main
import Challenger.Completeness
import Challenger.Shutdown
