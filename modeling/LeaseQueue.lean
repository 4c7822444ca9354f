import LeaseQueue.Main
import LeaseQueue.Proofs.Queue.Codec
import LeaseQueue.Proofs.Queue.Passes
import LeaseQueue.Proofs.Queue.Leases
import LeaseQueue.Proofs.Queue.Conservation
import LeaseQueue.Proofs.Queue.Batches
import LeaseQueue.Proofs.Queue.Attempts
import LeaseQueue.Proofs.Queue.Decoding
import LeaseQueue.Proofs.Queue.Wire
import LeaseQueue.Proofs.Queue.Sweeps
import LeaseQueue.Proofs.Queue.Claims
import LeaseQueue.Proofs.Queue.Guards
import LeaseQueue.Proofs.Engine.Duties
import LeaseQueue.Proofs.Engine.Commits
import LeaseQueue.Proofs.Cluster.Acknowledgement
import LeaseQueue.Proofs.Cluster.Succession
import LeaseQueue.Proofs.Cluster.Leadership
import LeaseQueue.Proofs.Cluster.Rosters
import LeaseQueue.Proofs.Cluster.Serial
import LeaseQueue.Proofs.Cluster.Halting
import LeaseQueue.Proofs.Cluster.Stranded
import LeaseQueue.Proofs.Cluster.Legibility
import LeaseQueue.Proofs.Cluster.Openings
import LeaseQueue.Proofs.Cluster.Contests
import LeaseQueue.Proofs.Cluster.Bases
import LeaseQueue.Proofs.Cluster.Landings
import LeaseQueue.Proofs.Cluster.Heartbeats
import LeaseQueue.Proofs.Cluster.Linearity
import LeaseQueue.Proofs.Cluster.Authority
import LeaseQueue.Proofs.Cluster.Snapshots
import LeaseQueue.Proofs.Cluster.Intake
import LeaseQueue.Proofs.Cluster.Frugality
import LeaseQueue.Proofs.Store.ObjectStores
import LeaseQueue.Proofs.Store.Admissions
import LeaseQueue.Proofs.Store.Paths
import LeaseQueue.Proofs.Fleet.Failures
import LeaseQueue.Proofs.Fleet.Foundings
