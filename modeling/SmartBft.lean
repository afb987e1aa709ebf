import SmartBft.Schedule
import SmartBft.Quorum
import SmartBft.Leader
import SmartBft.VoteSet
import SmartBft.InFlight
import SmartBft.Controller.State
import SmartBft.Controller.Step
import SmartBft.Controller.Invariants
import SmartBft.Controller.Refinement
import SmartBft.Controller.Blocking
import SmartBft.TickDemux
import SmartBft.ProposalMaker
import SmartBft.Controller.StopCallers
import SmartBft.TickDemuxStops
import SmartBft.InFlightShared
import SmartBft.Controller.Shutdown
