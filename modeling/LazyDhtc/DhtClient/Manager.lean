-- SUMMARY: The goroutines of a DHT manager and what its termination closes and waits for.
import LazyDhtc.Lib.Shutdown

/-!
# Manager

A manager runs one indexing service for each network. A service has a goroutine for
maintenance, its protocol one for the token secrets, and its transport one that reads
packets and three that send. None of them waits for a reader of the manager's output:
results that do not fit are dropped.
-/

namespace DhtClient

/-- What `Manager.Terminate` closes, cancels or shuts, for a service `i`. -/
inductive Signal where
  | managerDone
  | managerCtx
  | serviceDone (i : Nat)
  | serviceCtx (i : Nat)
  | protocolCtx (i : Nat)
  | transportDone (i : Nat)
  | transportCtx (i : Nat)
  | transportFd (i : Nat)
deriving DecidableEq

inductive Goroutine where
  | index (i : Nat)
  | updateTokenSecret (i : Nat)
  | readMessages (i : Nat)
  | sendLoop (i : Nat)
  | controlLoop (i : Nat)
  | responseLoop (i : Nat)
deriving DecidableEq

/-- The signals on which a goroutine returns. A context is cancelled with its parent;
    `readMessages` returns when a read fails and `transportDone` is closed, and that is
    closed before the socket. -/
def Goroutine.exits : Goroutine → List Signal
  | .index i => [.serviceDone i, .serviceCtx i, .managerCtx]
  | .updateTokenSecret i => [.protocolCtx i, .serviceCtx i, .managerCtx]
  | .readMessages i => [.transportFd i]
  | .sendLoop i => [.transportDone i]
  | .controlLoop i => [.transportDone i]
  | .responseLoop i => [.transportDone i]

abbrev ManagerState := Shutdown.State Signal Goroutine

/-- `Transport.Terminate`. -/
def transportTerminate (i : Nat) : List (Shutdown.Instr Signal Goroutine) :=
  [.close (.transportDone i), .close (.transportCtx i), .close (.transportFd i),
    .wait (.readMessages i), .wait (.sendLoop i), .wait (.controlLoop i), .wait (.responseLoop i)]

/-- `Protocol.Terminate`. -/
def protocolTerminate (i : Nat) : List (Shutdown.Instr Signal Goroutine) :=
  .close (.protocolCtx i) :: transportTerminate i ++ [.wait (.updateTokenSecret i)]

/-- `IndexingService.Terminate`. -/
def serviceTerminate (i : Nat) : List (Shutdown.Instr Signal Goroutine) :=
  [.close (.serviceDone i), .close (.serviceCtx i)] ++ protocolTerminate i ++ [.wait (.index i)]

/-- `Manager.Terminate` of a manager with `n` services. -/
def managerTerminate (n : Nat) : List (Shutdown.Instr Signal Goroutine) :=
  [.close .managerDone, .close .managerCtx] ++ (List.range n).flatMap serviceTerminate

def newManager (n : Nat) : ManagerState := ⟨[], fun _ => .waiting, managerTerminate n⟩

theorem serviceTerminate_ordered (closed : List Signal) (i : Nat) :
    Shutdown.Ordered Goroutine.exits closed (serviceTerminate i) := by
  simp [serviceTerminate, protocolTerminate, transportTerminate, Shutdown.Ordered, Goroutine.exits]

theorem managerTerminate_ordered (n : Nat) :
    Shutdown.Ordered Goroutine.exits [] (managerTerminate n) := by
  have hservices : ∀ (closed : List Signal) (is : List Nat),
      Shutdown.Ordered Goroutine.exits closed (is.flatMap serviceTerminate) := by
    intro closed is
    induction is with
    | nil => trivial
    | cons i is ih => exact (serviceTerminate_ordered closed i).append ih
  exact hservices [.managerCtx, .managerDone] (List.range n)

end DhtClient
