-- SUMMARY: Acknowledgements across worker restarts: sound while no ID is reused under a pull, unsound when a process counts from zero again.
import LazyDhtc.Cluster.AckSafety
import LazyDhtc.Cluster.Rounds

/-!
# Restarts

A new process counts on from the largest ID in its cache file, and from zero without one.
A pull that the old process answered may still be acknowledged after that.
-/

namespace Cluster

open DhtClient Json Transition

/-- The second process of an idle worker in pull mode. -/
def pullRestarted : ClusterState :=
  { pullStart with queue := runWorker pullWorker pullStart.files, process := 1 }

end Cluster
