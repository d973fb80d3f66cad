import Detta.Safety.Theft
import Detta.Safety.Conservation
import Detta.Aspect.Stdlib
import Detta.Safety.Timelock
import Detta.Safety.Effects
import Detta.Safety.Metering
import Detta.Safety.ReadYourWrites
import Detta.Aspect.Meaning
import Detta.Safety.Signing
import Detta.Safety.Modules
import Detta.Safety.StaticEffects
import Detta.Safety.Recursion
import Detta.Safety.Slashing
import Detta.Safety.Minority
import Detta.Safety.Wire
import Detta.Safety.Chunks
import Detta.Safety.AppendOnly
import Detta.Safety.Transfer
import Detta.Safety.Peers
import Detta.Safety.Oracle
import Detta.Safety.TraceCheck
import Detta.Safety.Refinement
