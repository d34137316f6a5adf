import AewtState.Guarantees
import AewtState.Departure
import AewtState.Replication
import AewtState.Identity
import AewtState.Routing
import AewtState.Dialling
import AewtState.Order
import AewtState.FullMesh
import AewtState.Outbox
import AewtState.Envelope
import AewtState.Subscribing
import AewtState.Counts
import AewtState.Ports
import AewtState.Redial
import AewtState.Quiescence
import AewtState.Settling
import AewtState.Answers
import AewtState.Unicast
import AewtState.Threads
import AewtState.Tidy
import AewtState.Stalling
import AewtState.Schedules
import AewtState.Draining
import AewtState.Atomic
import AewtState.Arrivals
