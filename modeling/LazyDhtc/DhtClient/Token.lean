-- SUMMARY: The tokens of announcements: a token is accepted from the addresses it was made for, until its secret has been overwritten twice.
import LazyDhtc.DhtClient.HandlerCalls

/-!
# Tokens

A token is the SHA-1 sum of a secret and an address. The protocol has two secrets, which a
rotation overwrites in place: the current one, and the one that was current before.
-/

namespace DhtClient

namespace IndexingService

/-- A round of `updateTokenSecret`: the previous secret is copied over, and the current one
    filled with new bytes. -/
def rotateTokenSecret (s : IndexingService) (secret : Bytes) : IndexingService :=
  { s with
    previousTokenSecret :=
      copySlice s.previousTokenSecret 0 s.previousTokenSecret.length s.currentTokenSecret
    currentTokenSecret := secret }

/-- What `CalculateToken` gives to `sha1.Sum`. -/
def tokenInput (s : IndexingService) (address : Addr) : Bytes :=
  s.currentTokenSecret ++ address.asSlice

/-- What `VerifyToken` gives to `sha1.Sum`, until it returns. -/
def verifyInputs (env : Environment) (s : IndexingService) (address : Addr) (token : Bytes) :
    List Bytes :=
  if env.sha1 (s.tokenInput address) = token then [s.tokenInput address]
  else [s.tokenInput address, s.previousTokenSecret ++ address.asSlice]

/-- The copy takes the whole secret where both have one length. -/
theorem rotateTokenSecret_eq {s : IndexingService}
    (h : s.previousTokenSecret.length = s.currentTokenSecret.length) (secret : Bytes) :
    s.rotateTokenSecret secret =
      { s with previousTokenSecret := s.currentTokenSecret, currentTokenSecret := secret } := by
  simp [rotateTokenSecret, copySlice, h]

/-- A token is accepted when it is the sum of one of the inputs. -/
theorem verifyToken_iff {env : Environment} {s : IndexingService} {address : Addr}
    {token : Bytes} : s.verifyToken env address token = true ↔
      ∃ x ∈ s.verifyInputs env address token, env.sha1 x = token := by
  unfold verifyToken verifyInputs
  rw [Bool.or_eq_true, decide_eq_true_eq, decide_eq_true_eq]
  change env.sha1 (s.tokenInput address) = token ∨ _ ↔ _
  by_cases h : env.sha1 (s.tokenInput address) = token <;> simp [h]

end IndexingService

/-- The rotation of a manager's service is the one in place, whose secrets have one length. -/
theorem Manager.updateTokenSecret_eq {n : Nat} (env : Environment) (m : Manager n) (i : Fin n)
    (h : (m.services i).previousTokenSecret.length = (m.services i).currentTokenSecret.length) :
    m.updateTokenSecret env i =
      m.tick.update i fun s => s.rotateTokenSecret (env.random m.calls) := by
  unfold Manager.updateTokenSecret Manager.update
  dsimp only [Manager.tick]
  rw [IndexingService.rotateTokenSecret_eq h]

/-! ## Runs -/

/-- A token that `CalculateToken` has returned, and how many rotations there had been. -/
structure IssuedToken where
  address : Addr
  token : Bytes
  rotation : Nat

/-- A protocol with its past. `secrets` are those that have been current, the first one
    first, and `hashed` is all that `sha1.Sum` has been given. -/
structure TokenRun where
  service : IndexingService
  secrets : List Bytes
  rotations : Nat
  issued : List IssuedToken
  hashed : List Bytes

inductive TokenAction where
  | calculate (address : Addr)
  | verify (address : Addr) (token : Bytes)
  | rotate (secret : Bytes)

/-- Each call holds `tokenLock` from its first to its last access to the secrets. -/
inductive TokenStep (env : Environment) : TokenRun → TokenAction → TokenRun → Prop where
  | calculate {s : TokenRun} {address : Addr} :
      TokenStep env s (.calculate address)
        { s with
          issued := s.issued ++
            [⟨address, s.service.calculateToken env address, s.rotations⟩]
          hashed := s.hashed ++ [s.service.tokenInput address] }
  | verify {s : TokenRun} {address : Addr} {token : Bytes} :
      TokenStep env s (.verify address token)
        { s with hashed := s.hashed ++ s.service.verifyInputs env address token }
  | rotate {s : TokenRun} {secret : Bytes} : secret.length = 20 →
      TokenStep env s (.rotate secret)
        { s with
          service := s.service.rotateTokenSecret secret
          secrets := s.secrets ++ [secret]
          rotations := s.rotations + 1 }

def TokenRun.new (service : IndexingService) : TokenRun :=
  ⟨service, [service.currentTokenSecret], 0, [], []⟩

def tokenSystem (env : Environment) : Transition.System TokenRun TokenAction where
  init s := ∃ network interval maxNeighbors nodeID secret, secret.length = 20 ∧
    s = .new (newIndexingService network interval maxNeighbors nodeID secret)
  step := TokenStep env

/-! ## Generations -/

namespace TokenRun

/-- The two secrets are the last two, and each token was made from the secret of its time. -/
structure Inv (env : Environment) (s : TokenRun) : Prop where
  length : s.secrets.length = s.rotations + 1
  size : ∀ secret ∈ s.secrets, secret.length = 20
  current : s.secrets[s.rotations]? = some s.service.currentTokenSecret
  previous : s.secrets[s.rotations - 1]? = some s.service.previousTokenSecret
  issued : ∀ r ∈ s.issued, ∃ secret, s.secrets[r.rotation]? = some secret ∧
    r.token = env.sha1 (secret ++ r.address.asSlice) ∧ secret ++ r.address.asSlice ∈ s.hashed

variable {env : Environment} {s : TokenRun}

theorem inv_new (env : Environment) {service : IndexingService}
    (hlength : service.currentTokenSecret.length = 20)
    (hsame : service.previousTokenSecret = service.currentTokenSecret) :
    Inv env (.new service) where
  length := rfl
  size := by simpa [new] using hlength
  current := rfl
  previous := by simp [new, hsame]
  issued := by simp [new]

theorem Inv.calculate (h : Inv env s) (address : Addr) : Inv env { s with
    issued := s.issued ++ [⟨address, s.service.calculateToken env address, s.rotations⟩]
    hashed := s.hashed ++ [s.service.tokenInput address] } where
  length := h.length
  size := h.size
  current := h.current
  previous := h.previous
  issued r hr := by
    rcases List.mem_append.1 hr with hr | hr
    · obtain ⟨secret, hget, htoken, hmem⟩ := h.issued r hr
      exact ⟨secret, hget, htoken, List.mem_append_left _ hmem⟩
    · cases List.mem_singleton.1 hr
      exact ⟨_, h.current, rfl, List.mem_append_right _ (List.mem_singleton_self _)⟩

theorem Inv.verify (h : Inv env s) (inputs : List Bytes) :
    Inv env { s with hashed := s.hashed ++ inputs } where
  length := h.length
  size := h.size
  current := h.current
  previous := h.previous
  issued r hr := by
    obtain ⟨secret, hget, htoken, hmem⟩ := h.issued r hr
    exact ⟨secret, hget, htoken, List.mem_append_left _ hmem⟩

theorem Inv.size_current (h : Inv env s) : s.service.currentTokenSecret.length = 20 :=
  h.size _ (List.mem_of_getElem? h.current)

theorem Inv.size_previous (h : Inv env s) : s.service.previousTokenSecret.length = 20 :=
  h.size _ (List.mem_of_getElem? h.previous)

theorem Inv.rotate (h : Inv env s) {secret : Bytes} (hsecret : secret.length = 20) :
    Inv env { s with
      service := s.service.rotateTokenSecret secret
      secrets := s.secrets ++ [secret]
      rotations := s.rotations + 1 } := by
  rw [IndexingService.rotateTokenSecret_eq (h.size_previous.trans h.size_current.symm)]
  -- A secret that has an index keeps it.
  have hkeep : ∀ {k : Nat} {x : Bytes}, s.secrets[k]? = some x →
      (s.secrets ++ [secret])[k]? = some x := by
    intro k x hk
    obtain ⟨hlt, -⟩ := List.getElem?_eq_some_iff.1 hk
    rw [List.getElem?_append_left hlt, hk]
  constructor
  case length => simp [h.length]
  case size =>
    intro x hx
    rcases List.mem_append.1 hx with hx | hx
    · exact h.size x hx
    · rw [List.mem_singleton.1 hx, hsecret]
  case current =>
    change (s.secrets ++ [secret])[s.rotations + 1]? = some secret
    rw [← h.length, List.getElem?_concat_length]
  case previous =>
    change (s.secrets ++ [secret])[s.rotations + 1 - 1]? = some s.service.currentTokenSecret
    rw [Nat.add_sub_cancel, hkeep h.current]
  case issued =>
    intro r hr
    obtain ⟨x, hget, htoken, hmem⟩ := h.issued r hr
    exact ⟨x, hkeep hget, htoken, hmem⟩

theorem Inv.step (h : Inv env s) {a : TokenAction} {s' : TokenRun} (hstep : TokenStep env s a s') :
    Inv env s' := by
  cases hstep with
  | calculate => exact h.calculate _
  | verify => exact h.verify _
  | rotate hsecret => exact h.rotate hsecret

theorem inv_reachable (h : (tokenSystem env).Reachable s) : Inv env s := by
  refine Transition.System.invariant ?_ (fun _ _ _ _ hinv hstep => hinv.step hstep) h
  rintro s ⟨network, interval, maxNeighbors, nodeID, secret, hlength, rfl⟩
  exact inv_new env hlength rfl

/-! ## Acceptance -/

/-- `VerifyToken` gives to `sha1.Sum` secrets of the last two generations. -/
theorem Inv.of_mem_verifyInputs (h : Inv env s) {address : Addr} {token x : Bytes}
    (hx : x ∈ s.service.verifyInputs env address token) :
    ∃ k secret, s.secrets[k]? = some secret ∧ s.rotations ≤ k + 1 ∧
      x = secret ++ address.asSlice := by
  have hcases : x = s.service.currentTokenSecret ++ address.asSlice ∨
      x = s.service.previousTokenSecret ++ address.asSlice := by
    unfold IndexingService.verifyInputs at hx
    split at hx
    · exact .inl (List.mem_singleton.1 hx)
    · simpa [IndexingService.tokenInput] using hx
  rcases hcases with rfl | rfl
  · exact ⟨_, _, h.current, by omega, rfl⟩
  · exact ⟨_, _, h.previous, by omega, rfl⟩

/-- Inputs of one sum have one secret and one address. -/
theorem Inv.input_inj (h : Inv env s) (hfresh : s.secrets.Nodup) {j k : Nat} {x y : Bytes}
    (hx : s.secrets[j]? = some x) (hy : s.secrets[k]? = some y) {a b : Bytes}
    (heq : x ++ b = y ++ a) : j = k ∧ a = b := by
  have hlen : x.length = y.length :=
    (h.size x (List.mem_of_getElem? hx)).trans (h.size y (List.mem_of_getElem? hy)).symm
  obtain ⟨hxy, hba⟩ := List.append_inj heq hlen
  obtain ⟨hj, -⟩ := List.getElem?_eq_some_iff.1 hx
  refine ⟨(List.getElem?_inj hj hfresh).1 ?_, hba.symm⟩
  rw [hx, hy, hxy]

/-- A token is accepted while its secret is one of the last two. -/
theorem Inv.verifyToken_of_recent (h : Inv env s) {k : Nat} {secret : Bytes}
    (hget : s.secrets[k]? = some secret) (hrecent : s.rotations ≤ k + 1) (b : Addr) :
    s.service.verifyToken env b (env.sha1 (secret ++ b.asSlice)) = true := by
  obtain ⟨hk, -⟩ := List.getElem?_eq_some_iff.1 hget
  rw [h.length] at hk
  have hgen : k = s.rotations ∨ k = s.rotations - 1 := by omega
  unfold IndexingService.verifyToken
  rcases hgen with rfl | rfl
  · cases hget.symm.trans h.current
    simp
  · cases hget.symm.trans h.previous
    simp

end TokenRun

/-- In every interleaving of calls and rotations, with secrets that never repeat and sums
    that differ for different inputs, a token is accepted from the bytes of the address it was
    made for and after at most one rotation, and in no other case. -/
theorem token_accepted_iff {env : Environment} {s : TokenRun}
    (h : (tokenSystem env).Reachable s) (hfresh : s.secrets.Nodup) {r : IssuedToken}
    (hr : r ∈ s.issued) (b : Addr)
    (hsha1 : Set.InjOn env.sha1 {x | x ∈ s.hashed ++ s.service.verifyInputs env b r.token}) :
    s.service.verifyToken env b r.token = true ↔
      r.address.asSlice = b.asSlice ∧ s.rotations ≤ r.rotation + 1 := by
  have hinv := TokenRun.inv_reachable h
  obtain ⟨secret, hget, htoken, hhashed⟩ := hinv.issued r hr
  constructor
  · intro hverify
    obtain ⟨x, hx, hsum⟩ := IndexingService.verifyToken_iff.1 hverify
    have heq : x = secret ++ r.address.asSlice :=
      hsha1 (List.mem_append_right _ hx) (List.mem_append_left _ hhashed) (hsum.trans htoken)
    obtain ⟨k, y, hy, hrecent, hxy⟩ := hinv.of_mem_verifyInputs hx
    obtain ⟨rfl, haddress⟩ := hinv.input_inj hfresh hy hget (hxy.symm.trans heq)
    exact ⟨haddress, hrecent⟩
  · rintro ⟨haddress, hrecent⟩
    rw [htoken, haddress]
    exact hinv.verifyToken_of_recent hget hrecent b

/-- A protocol that has made a token and then drawn a second secret. -/
def rotatedRun : TokenRun where
  service := (newIndexingService (ascii "udp4") (seconds 10) 2000 (List.replicate 20 1)
    (List.replicate 20 2)).rotateTokenSecret (List.replicate 20 3)
  secrets := [List.replicate 20 2, List.replicate 20 3]
  rotations := 1
  issued := [⟨samplePeerAddr.addr,
    Sha1.sum (List.replicate 20 2 ++ samplePeerAddr.addr.asSlice), 0⟩]
  hashed := [List.replicate 20 2 ++ samplePeerAddr.addr.asSlice]

theorem rotatedRun_reachable : (tokenSystem nodeEnvironment).Reachable rotatedRun := by
  have hnew : (tokenSystem nodeEnvironment).Reachable (.new (newIndexingService (ascii "udp4")
      (seconds 10) 2000 (List.replicate 20 1) (List.replicate 20 2))) :=
    .init ⟨_, _, _, _, _, List.length_replicate, rfl⟩
  have hcalculate := hnew.step (@TokenStep.calculate nodeEnvironment _ samplePeerAddr.addr)
  exact hcalculate.step (TokenStep.rotate List.length_replicate)

theorem token_accepted_iff_rotated : rotatedRun.service.verifyToken nodeEnvironment
    samplePeerAddr.addr (Sha1.sum (List.replicate 20 2 ++ samplePeerAddr.addr.asSlice)) = true := by
  refine (token_accepted_iff rotatedRun_reachable (by decide) (List.mem_singleton_self _)
    samplePeerAddr.addr ?_).2 ⟨rfl, by decide⟩
  have hne : Sha1.sum (List.replicate 20 2 ++ samplePeerAddr.addr.asSlice) ≠
      Sha1.sum (List.replicate 20 3 ++ samplePeerAddr.addr.asSlice) := by decide +kernel
  have hinputs : ∀ x ∈ rotatedRun.hashed ++ rotatedRun.service.verifyInputs nodeEnvironment
        samplePeerAddr.addr (Sha1.sum (List.replicate 20 2 ++ samplePeerAddr.addr.asSlice)),
      x = List.replicate 20 2 ++ samplePeerAddr.addr.asSlice ∨
        x = List.replicate 20 3 ++ samplePeerAddr.addr.asSlice := by
    intro x hx
    rcases List.mem_append.1 hx with hx | hx
    · exact .inl (List.mem_singleton.1 hx)
    unfold IndexingService.verifyInputs at hx
    rw [if_neg (fun h => hne h.symm)] at hx
    rcases List.mem_cons.1 hx with rfl | hx
    · exact .inr rfl
    · exact .inl (List.mem_singleton.1 hx)
  intro x hx y hy hsum
  rcases hinputs x hx with rfl | rfl <;> rcases hinputs y hy with rfl | rfl
  · rfl
  · exact absurd hsum hne
  · exact absurd hsum.symm hne
  · rfl

end DhtClient
