-- SUMMARY: IP addresses as text: dotted decimals, hexadecimal groups with one run of zeros elided, and reading them back.
import LazyDhtc.Lib.Hex
import LazyDhtc.Lib.Json.Number

/-!
# Addresses as text

An IPv4 address is four decimal numbers with dots between them, an IPv6 address eight
hexadecimal groups with colons between them, of which one run of zeros is written `::`.
The formatter and the parser are those of Go's `net/netip`.
-/

namespace IpText

open Json Hex

/-! ## IPv4 -/

/-- The bytes in decimal, with dots between them. -/
def appendTo4 : Bytes → Bytes
  | [] => []
  | [b] => decimal b.toNat
  | b :: bs => decimal b.toNat ++ 0x2E :: appendTo4 bs

theorem appendTo4_cons (b c : UInt8) (bs : Bytes) :
    appendTo4 (b :: c :: bs) = decimal b.toNat ++ 0x2E :: appendTo4 (c :: bs) := by
  rw [appendTo4]
  simp

/-- The loop of `parseIPv4Fields`: the fields read so far, and the value and the number of
    digits of the current one. -/
def parseIPv4Fields (fields : Bytes) (val digLen : Nat) : Bytes → Option Bytes
  | [] => if fields.length < 3 then none else some (fields ++ [.ofNat val])
  | c :: s =>
    if isDigit c then
      -- no leading zeros
      if digLen = 1 ∧ val = 0 then none
      else if 255 < val * 10 + (c.toNat - 48) then none
      else parseIPv4Fields fields (val * 10 + (c.toNat - 48)) (digLen + 1) s
    else if c = 0x2E then
      if digLen = 0 ∨ s = [] then none
      else if fields.length = 3 then none
      else parseIPv4Fields (fields ++ [.ofNat val]) 0 0 s
    else none

theorem parseIPv4Fields_digit {fields : Bytes} {val digLen d : Nat} (hd : d < 10)
    (hlead : ¬ (digLen = 1 ∧ val = 0)) (hval : val * 10 + d ≤ 255) (s : Bytes) :
    parseIPv4Fields fields val digLen (digitChar d :: s) =
      parseIPv4Fields fields (val * 10 + d) (digLen + 1) s := by
  have hdigit : ∀ d, d < 10 → (digitChar d).toNat - 48 = d := by decide
  rw [parseIPv4Fields, if_pos (isDigit_digitChar hd), if_neg hlead, hdigit d hd,
    if_neg (Nat.not_lt.2 hval)]

/-- A decimal number is read as the current field. -/
theorem parseIPv4Fields_decimal (fields : Bytes) {n : Nat} (hn : n ≤ 255) (s : Bytes) :
    parseIPv4Fields fields 0 0 (decimal n ++ s) =
      parseIPv4Fields fields n (decimal n).length s := by
  by_cases hzero : n = 0
  · subst hzero
    exact parseIPv4Fields_digit (d := 0) (by decide) (by decide) (by decide) s
  · induction n using Nat.strong_induction_on generalizing s with
    | _ n ih =>
      have hmod : n % 10 < 10 := Nat.mod_lt _ (by decide)
      rw [decimal_step hzero]
      split_ifs with htens
      · rw [List.nil_append, List.singleton_append, parseIPv4Fields_digit hmod (by decide)
          (by omega)]
        congr 1
        omega
      · have hrest := ih (n / 10) (by omega) (by omega) (digitChar (n % 10) :: s) htens
        have hvalue : n / 10 * 10 + n % 10 = n := by omega
        rw [List.append_assoc, List.singleton_append, hrest,
          parseIPv4Fields_digit hmod (fun h => htens h.2) (by omega), hvalue,
          List.length_append, List.length_singleton]

/-- The remaining fields are read up to the end of the text. -/
theorem parseIPv4Fields_appendTo4 (fields : Bytes) {bs : Bytes} (hbs : bs ≠ [])
    (hlen : fields.length + bs.length = 4) :
    parseIPv4Fields fields 0 0 (appendTo4 bs) = some (fields ++ bs) := by
  induction bs generalizing fields with
  | nil => exact absurd rfl hbs
  | cons b bs ih =>
    have hb : b.toNat ≤ 255 := Nat.le_of_lt_succ b.toNat_lt
    cases bs with
    | nil =>
      have hfull : ¬ fields.length < 3 := by
        simp only [List.length_cons, List.length_nil] at hlen
        omega
      have hread := parseIPv4Fields_decimal fields hb []
      rw [List.append_nil] at hread
      rw [appendTo4, hread, parseIPv4Fields, if_neg hfull, UInt8.ofNat_toNat]
    | cons c bs =>
      have hne : appendTo4 (c :: bs) ≠ [] := by
        cases bs with
        | nil => exact decimal_ne_nil _
        | cons c' bs => simp [appendTo4]
      have hdigits : (decimal b.toNat).length ≠ 0 :=
        fun h => decimal_ne_nil _ (List.length_eq_zero_iff.1 h)
      have hroom : fields.length ≠ 3 := by
        simp only [List.length_cons] at hlen
        omega
      have hdot : isDigit 0x2E = false := by decide
      have hrest := ih (fields ++ [b]) (List.cons_ne_nil _ _) (by
        simp only [List.length_append, List.length_cons, List.length_nil] at hlen ⊢
        omega)
      rw [appendTo4_cons, parseIPv4Fields_decimal fields hb, parseIPv4Fields]
      simp [hdot, hdigits, hne, hroom, hrest]

/-! ## IPv6 groups -/

/-- `Addr.v6u16` of all groups. -/
def groupsOf : Bytes → List Nat
  | a :: b :: s => (a.toNat * 256 + b.toNat) :: groupsOf s
  | _ => []

def bytesOf (gs : List Nat) : Bytes := gs.flatMap fun g => [.ofNat (g / 256), .ofNat (g % 256)]

def joinGroups : List Nat → Bytes
  | [] => []
  | [g] => appendHex g
  | g :: gs => appendHex g ++ 0x3A :: joinGroups gs

/-- The first longest run of at least two zero groups, by its start and its end. -/
def zeroRun (gs : List Nat) : Option (Nat × Nat) :=
  (List.range gs.length).foldl (fun best i =>
    let l := ((gs.drop i).takeWhile (· = 0)).length
    if 2 ≤ l ∧ best.elim 0 (fun run => run.2 - run.1) < l then some (i, i + l) else best) none

def appendTo6 (gs : List Nat) : Bytes :=
  match zeroRun gs with
  | none => joinGroups gs
  | some (zeroStart, zeroEnd) =>
    joinGroups (gs.take zeroStart) ++ 0x3A :: 0x3A :: joinGroups (gs.drop zeroEnd)

theorem joinGroups_cons (g g' : Nat) (gs : List Nat) :
    joinGroups (g :: g' :: gs) = appendHex g ++ 0x3A :: joinGroups (g' :: gs) := by
  rw [joinGroups]
  simp

theorem bytesOf_groupsOf {bs : Bytes} (h : bs.length % 2 = 0) : bytesOf (groupsOf bs) = bs := by
  fun_induction groupsOf bs with
  | case1 a b s ih =>
    have hb : b.toNat < 256 := b.toNat_lt
    have hhigh : (a.toNat * 256 + b.toNat) / 256 = a.toNat := by omega
    have hlow : (a.toNat * 256 + b.toNat) % 256 = b.toNat := by omega
    have hrest := ih (by simp only [List.length_cons] at h; omega)
    unfold bytesOf at hrest ⊢
    rw [List.flatMap_cons, hrest, hhigh, hlow, UInt8.ofNat_toNat, UInt8.ofNat_toNat]
    rfl
  | case2 bs hbs =>
    match bs with
    | [] => rfl
    | [b] => simp at h
    | a :: b :: s => exact absurd rfl (hbs a b s)

theorem length_groupsOf (bs : Bytes) : (groupsOf bs).length = bs.length / 2 := by
  fun_induction groupsOf bs with
  | case1 a b s ih =>
    simp only [List.length_cons, ih]
    omega
  | case2 bs hbs =>
    match bs with
    | [] => rfl
    | [b] => simp
    | a :: b :: s => exact absurd rfl (hbs a b s)

theorem groupsOf_le (bs : Bytes) : ∀ g ∈ groupsOf bs, g ≤ 0xFFFF := by
  fun_induction groupsOf bs with
  | case1 a b s ih =>
    have ha : a.toNat < 256 := a.toNat_lt
    have hb : b.toNat < 256 := b.toNat_lt
    intro g hg
    rcases List.mem_cons.1 hg with rfl | hg
    · omega
    · exact ih g hg
  | case2 => simp

@[simp] theorem length_bytesOf (gs : List Nat) : (bytesOf gs).length = 2 * gs.length := by
  simp [bytesOf, List.length_flatMap, Nat.mul_comm]

@[simp] theorem bytesOf_append (gs gs' : List Nat) :
    bytesOf (gs ++ gs') = bytesOf gs ++ bytesOf gs' := by
  simp [bytesOf]

theorem bytesOf_zeros (n : Nat) : bytesOf (List.replicate n 0) = List.replicate (2 * n) 0 := by
  induction n with
  | zero => rfl
  | succ n ih =>
    have hlen : 2 * (n + 1) = 2 * n + 1 + 1 := by omega
    rw [List.replicate_succ, hlen, List.replicate_succ, List.replicate_succ, ← ih]
    rfl

/-- The run of zeros is within the groups, and there are only zeros in it. -/
theorem zeroRun_spec {gs : List Nat} {zeroStart zeroEnd : Nat}
    (h : zeroRun gs = some (zeroStart, zeroEnd)) :
    zeroStart + 2 ≤ zeroEnd ∧ zeroEnd ≤ gs.length ∧
      gs = gs.take zeroStart ++ List.replicate (zeroEnd - zeroStart) 0 ++ gs.drop zeroEnd := by
  let Good : Option (Nat × Nat) → Prop := fun best => ∀ run, best = some run →
    run.1 + 2 ≤ run.2 ∧ run.2 ≤ gs.length ∧
      gs = gs.take run.1 ++ List.replicate (run.2 - run.1) 0 ++ gs.drop run.2
  suffices hgood : Good (zeroRun gs) from hgood _ h
  unfold zeroRun
  refine List.foldlRecOn (motive := Good) _ _ ?_ ?_
  · rintro run hrun
    cases hrun
  · intro best hbest i hi run hrun
    have hi : i < gs.length := List.mem_range.1 hi
    dsimp only at hrun
    split_ifs at hrun with hlonger
    · cases hrun
      have hrun := List.takeWhile_prefix (p := (· = 0)) (l := gs.drop i)
      have hle := hrun.length_le
      rw [List.length_drop] at hle
      have hzeros : (gs.drop i).take ((gs.drop i).takeWhile (· = 0)).length =
          List.replicate ((gs.drop i).takeWhile (· = 0)).length 0 := by
        rw [← List.prefix_iff_eq_take.1 hrun]
        refine List.eq_replicate_iff.2 ⟨rfl, ?_⟩
        intro g hg
        simpa using List.all_eq_true.1 List.all_takeWhile g hg
      refine ⟨by omega, by omega, ?_⟩
      dsimp only
      rw [Nat.add_sub_cancel_left, ← hzeros, List.append_assoc, ← List.drop_drop,
        List.take_append_drop, List.take_append_drop]
    · exact hbest run hrun

/-! ## Reading groups -/

/-- The bytes read so far, where among them the ellipsis was, and the rest of the text. -/
abbrev Progress := Bytes × Option Nat × Bytes

/-- What may follow a group: the end, a colon and another group, or an ellipsis. -/
def afterGroup (next : Bytes → Option Nat → Bytes → Option Progress) (ip : Bytes)
    (ellipsis : Option Nat) : Bytes → Option Progress
  | [] => some (ip, ellipsis, [])
  | [_] => none
  | c :: c' :: s =>
    if c ≠ 0x3A then none
    else if c' = 0x3A then
      if ellipsis.isSome then none
      else if s = [] then some (ip, some ip.length, [])
      else next ip (some ip.length) s
    else next ip ellipsis (c' :: s)

/-- The loop of `parseIPv6`, with room for so many groups. A group that ends with a dot is
    the first number of an embedded IPv4 address. -/
def parseGroups : Nat → Bytes → Option Nat → Bytes → Option Progress
  | 0, ip, ellipsis, s => some (ip, ellipsis, s)
  | room + 1, ip, ellipsis, s =>
    match readGroup 0 0 s with
    | none => none
    | some (off, acc, rest) =>
      if off = 0 then none
      else if rest.head? = some 0x2E then
        if ellipsis = none ∧ ip.length ≠ 12 then none
        else if 16 < ip.length + 4 then none
        else (parseIPv4Fields [] 0 0 s).map fun fields => (ip ++ fields, ellipsis, [])
      else afterGroup (parseGroups room) (ip ++ bytesOf [acc]) ellipsis rest

/-- The ellipsis stands for the groups that are missing, one at least. -/
def expand (ip : Bytes) : Option Nat → Option Bytes
  | none => if ip.length < 16 then none else some ip
  | some ellipsis =>
    if ip.length < 16 then
      some (ip.take ellipsis ++ List.replicate (16 - ip.length) 0 ++ ip.drop ellipsis)
    else none

/-- `parseIPv6` once the zone is split off. -/
def parseIPv6 (s : Bytes) : Option Bytes :=
  let leading := s.take 2 = [0x3A, 0x3A]
  let ellipsis := if leading then some 0 else none
  let s := if leading then s.drop 2 else s
  if leading ∧ s = [] then some (List.replicate 16 0)
  else
    match parseGroups 8 [] ellipsis s with
    | some (ip, ellipsis, []) => expand ip ellipsis
    | _ => none

/-- Text that can follow a group. -/
def EndsGroup (t : Bytes) : Prop := Ends t ∧ t.head? ≠ some 0x2E

theorem endsGroup_nil : EndsGroup [] := by
  refine ⟨?_, by decide⟩
  rintro c ⟨⟩

theorem endsGroup_colon (s : Bytes) : EndsGroup (0x3A :: s) := by
  refine ⟨?_, by simp⟩
  rintro c ⟨⟩
  decide

theorem parseGroups_group {g : Nat} (hg : g ≤ 0xFFFF) {t : Bytes} (ht : EndsGroup t) (room : Nat)
    (ip : Bytes) (ellipsis : Option Nat) :
    parseGroups (room + 1) ip ellipsis (appendHex g ++ t) =
      afterGroup (parseGroups room) (ip ++ bytesOf [g]) ellipsis t := by
  obtain ⟨off, hoff, hread⟩ := readGroup_appendHex hg ht.1
  simp only [parseGroups, hread, hoff, if_false, ht.2]

/-- Groups start with a digit. -/
theorem joinGroups_head {g : Nat} (hg : g ≤ 0xFFFF) (gs : List Nat) (t : Bytes) :
    ∃ d s, d < 16 ∧ joinGroups (g :: gs) ++ t = hexDigit d :: s := by
  obtain ⟨c, s, heq⟩ := List.exists_cons_of_ne_nil (appendHex_ne_nil g)
  obtain ⟨d, hd, rfl⟩ := appendHex_digits hg c (by rw [heq]; exact List.mem_cons_self)
  refine ⟨d, ?_⟩
  cases gs with
  | nil => exact ⟨s ++ t, hd, by rw [joinGroups, heq]; rfl⟩
  | cons g' gs =>
    refine ⟨s ++ 0x3A :: joinGroups (g' :: gs) ++ t, hd, ?_⟩
    rw [joinGroups_cons, heq, List.cons_append, List.cons_append]

/-- The loop reads all groups that are written, and goes on with what follows them. -/
theorem parseGroups_joinGroups {gs : List Nat} (hgs : gs ≠ []) (hle : ∀ g ∈ gs, g ≤ 0xFFFF)
    {t : Bytes} (ht : EndsGroup t) {room : Nat} (hroom : gs.length ≤ room) (ip : Bytes)
    (ellipsis : Option Nat) :
    parseGroups room ip ellipsis (joinGroups gs ++ t) =
      afterGroup (parseGroups (room - gs.length)) (ip ++ bytesOf gs) ellipsis t := by
  induction gs generalizing room ip with
  | nil => exact absurd rfl hgs
  | cons g gs ih =>
    have hg := hle g List.mem_cons_self
    obtain ⟨room, rfl⟩ := Nat.exists_eq_succ_of_ne_zero (Nat.ne_zero_of_lt hroom)
    cases gs with
    | nil => exact parseGroups_group hg ht room ip ellipsis
    | cons g' gs =>
      have hstep : joinGroups (g :: g' :: gs) ++ t =
          appendHex g ++ 0x3A :: (joinGroups (g' :: gs) ++ t) := by
        rw [joinGroups_cons, List.append_assoc, List.cons_append]
      have hle' : ∀ x ∈ g' :: gs, x ≤ 0xFFFF := fun x hx => hle x (List.mem_cons_of_mem _ hx)
      obtain ⟨d, s, hd, hhead⟩ := joinGroups_head (hle' g' List.mem_cons_self) gs t
      have hcolon := (hexDigit_ne d hd).2.2.1
      have hrest := ih (List.cons_ne_nil _ _) hle' (Nat.le_of_succ_le_succ hroom)
        (ip ++ bytesOf [g])
      have hbytes : bytesOf (g :: g' :: gs) = bytesOf [g] ++ bytesOf (g' :: gs) :=
        bytesOf_append [g] (g' :: gs)
      rw [hstep, parseGroups_group hg (endsGroup_colon _), hbytes, ← List.append_assoc]
      rw [List.length_cons, Nat.succ_sub_succ, ← hrest, hhead]
      simp only [afterGroup, ne_eq, not_true_eq_false, if_false, hcolon]

/-! ## Round trips -/

theorem parseIPv6_leading (s : Bytes) : parseIPv6 (0x3A :: 0x3A :: s) =
    if s = [] then some (List.replicate 16 0)
    else
      match parseGroups 8 [] (some 0) s with
      | some (ip, ellipsis, []) => expand ip ellipsis
      | _ => none := by
  simp [parseIPv6]

/-- An address that starts with a group starts with no ellipsis. -/
theorem parseIPv6_group {g : Nat} (hg : g ≤ 0xFFFF) (gs : List Nat) (t : Bytes) :
    parseIPv6 (joinGroups (g :: gs) ++ t) =
      match parseGroups 8 [] none (joinGroups (g :: gs) ++ t) with
      | some (ip, ellipsis, []) => expand ip ellipsis
      | _ => none := by
  obtain ⟨d, s, hd, hhead⟩ := joinGroups_head hg gs t
  have hleading : (hexDigit d :: s).take 2 ≠ [0x3A, 0x3A] := by
    intro h
    rw [List.take_succ_cons, List.cons.injEq] at h
    exact (hexDigit_ne d hd).2.2.1 h.1
  rw [hhead]
  simp only [parseIPv6, hleading, if_false, false_and]

/-- What is left out around the ellipsis is filled in with zeros. -/
theorem expand_groups {gs : List Nat} {zeroStart zeroEnd : Nat} (hlen : gs.length = 8)
    (hrun : zeroStart + 2 ≤ zeroEnd) (hend : zeroEnd ≤ gs.length)
    (hzeros : gs = gs.take zeroStart ++ List.replicate (zeroEnd - zeroStart) 0 ++ gs.drop zeroEnd) :
    expand (bytesOf (gs.take zeroStart) ++ bytesOf (gs.drop zeroEnd))
      (some (bytesOf (gs.take zeroStart)).length) = some (bytesOf gs) := by
  have hbefore : (gs.take zeroStart).length = zeroStart := List.length_take_of_le (by omega)
  have hmissing : 16 - (bytesOf (gs.take zeroStart) ++ bytesOf (gs.drop zeroEnd)).length =
      2 * (zeroEnd - zeroStart) := by
    rw [List.length_append, length_bytesOf, length_bytesOf, hbefore, List.length_drop]
    omega
  have hfill : bytesOf gs = bytesOf (gs.take zeroStart) ++
      List.replicate (2 * (zeroEnd - zeroStart)) 0 ++ bytesOf (gs.drop zeroEnd) := by
    conv_lhs => rw [hzeros]
    rw [bytesOf_append, bytesOf_append, bytesOf_zeros]
  rw [expand, if_pos (by omega), hmissing, List.take_left, List.drop_left, hfill]

theorem joinGroups_eq_nil {gs : List Nat} : joinGroups gs = [] ↔ gs = [] := by
  match gs with
  | [] => simp [joinGroups]
  | [g] => simp [joinGroups, appendHex_ne_nil]
  | g :: g' :: gs => simp [joinGroups]

/-- The groups after the ellipsis are read up to the end of the text. -/
theorem parseGroups_rest {gs : List Nat} (hgs : gs ≠ []) (hle : ∀ g ∈ gs, g ≤ 0xFFFF) {room : Nat}
    (hroom : gs.length ≤ room) (ip : Bytes) (ellipsis : Option Nat) :
    parseGroups room ip ellipsis (joinGroups gs) = some (ip ++ bytesOf gs, ellipsis, []) := by
  have hread := parseGroups_joinGroups hgs hle endsGroup_nil hroom ip ellipsis
  rw [List.append_nil] at hread
  exact hread

/-- The groups before the ellipsis are read, and those after it as well. -/
theorem parseGroups_ellipsis {before after : List Nat} (hbefore : before ≠ [])
    (hle : ∀ g ∈ before ++ after, g ≤ 0xFFFF) (hlen : before.length + after.length ≤ 8) :
    parseGroups 8 [] none (joinGroups before ++ 0x3A :: 0x3A :: joinGroups after) =
      some (bytesOf before ++ bytesOf after, some (bytesOf before).length, []) := by
  have hle' : ∀ g ∈ before, g ≤ 0xFFFF := fun g hg => hle g (List.mem_append_left _ hg)
  rw [parseGroups_joinGroups hbefore hle' (endsGroup_colon _) (by omega) [] none, List.nil_append]
  simp only [afterGroup, ne_eq, not_true_eq_false, if_false, if_true, Option.isSome_none,
    Bool.false_eq_true, joinGroups_eq_nil]
  split_ifs with hafter
  · simp [hafter, bytesOf]
  · exact parseGroups_rest hafter (fun g hg => hle g (List.mem_append_right _ hg)) (by omega) _ _

/-- An IPv6 address is read back. -/
theorem parseIPv6_appendTo6 {bs : Bytes} (h : bs.length = 16) :
    parseIPv6 (appendTo6 (groupsOf bs)) = some bs := by
  have hlen : (groupsOf bs).length = 8 := by rw [length_groupsOf, h]
  have hle := groupsOf_le bs
  have hbytes : bytesOf (groupsOf bs) = bs := bytesOf_groupsOf (by rw [h])
  generalize groupsOf bs = gs at hlen hle hbytes ⊢
  subst hbytes
  unfold appendTo6
  cases hrun : zeroRun gs with
  | none =>
    obtain ⟨g, gs, rfl⟩ := List.exists_cons_of_length_pos (by rw [hlen]; decide)
    have hread := parseGroups_joinGroups (List.cons_ne_nil g gs) hle endsGroup_nil hlen.le [] none
    have hparse := parseIPv6_group (hle g List.mem_cons_self) gs []
    rw [hread, List.append_nil] at hparse
    dsimp only
    rw [hparse, afterGroup, List.nil_append]
    dsimp only
    rw [expand, if_neg (by omega)]
  | some run =>
    obtain ⟨zeroStart, zeroEnd⟩ := run
    obtain ⟨hlong, hend, hzeros⟩ := zeroRun_spec hrun
    have hexpand := expand_groups hlen hlong hend hzeros
    have hsum : (gs.take zeroStart).length + (gs.drop zeroEnd).length ≤ 8 := by
      rw [List.length_take_of_le (by omega), List.length_drop]
      omega
    have hle' : ∀ g ∈ gs.take zeroStart ++ gs.drop zeroEnd, g ≤ 0xFFFF := by
      intro g hg
      rcases List.mem_append.1 hg with hg | hg
      · exact hle g (List.mem_of_mem_take hg)
      · exact hle g (List.mem_of_mem_drop hg)
    dsimp only
    generalize gs.take zeroStart = before at hexpand hsum hle' ⊢
    generalize gs.drop zeroEnd = after at hexpand hsum hle' ⊢
    cases before with
    | nil =>
      rw [joinGroups, List.nil_append, parseIPv6_leading]
      simp only [joinGroups_eq_nil]
      split_ifs with hafter
      · subst hafter
        exact hexpand
      · rw [parseGroups_rest hafter hle' (by simpa using hsum)]
        exact hexpand
    | cons g before =>
      rw [parseIPv6_group (hle' g (by simp)), parseGroups_ellipsis (List.cons_ne_nil _ _) hle' hsum]
      exact hexpand

/-- The digits of a decimal number are hexadecimal digits as well. -/
theorem decimal_hexDigits (n : Nat) :
    ∃ ds : List Nat, decimal n = ds.map hexDigit ∧ ∀ d ∈ ds, d < 16 := by
  have hdigit : ∀ d, d < 10 → digitChar d = hexDigit d := by decide
  unfold decimal
  split_ifs with hn
  · exact ⟨[0], rfl, by decide⟩
  · have hlt : ∀ d ∈ (Nat.digits 10 n).reverse, d < 10 :=
      fun d hd => Nat.digits_lt_base (by decide) (List.mem_reverse.1 hd)
    exact ⟨(Nat.digits 10 n).reverse, List.map_congr_left fun d hd => hdigit d (hlt d hd),
      fun d hd => (hlt d hd).trans (by decide)⟩

theorem appendTo4_head (b c : UInt8) (bs : Bytes) :
    ∃ d s, d < 16 ∧ appendTo4 (b :: c :: bs) = hexDigit d :: s := by
  obtain ⟨ds, heq, hds⟩ := decimal_hexDigits b.toNat
  cases ds with
  | nil => exact absurd heq (decimal_ne_nil _)
  | cons d ds =>
    refine ⟨d, ds.map hexDigit ++ 0x2E :: appendTo4 (c :: bs), hds d List.mem_cons_self, ?_⟩
    rw [appendTo4_cons, heq]
    rfl

/-- An embedded IPv4 address looks like a group up to its first dot. -/
theorem readGroup_appendTo4 (b c : UInt8) (bs : Bytes) :
    ∃ off acc, off ≠ 0 ∧ readGroup 0 0 (appendTo4 (b :: c :: bs)) =
      some (off, acc, 0x2E :: appendTo4 (c :: bs)) := by
  obtain ⟨ds, heq, hds⟩ := decimal_hexDigits b.toNat
  have hcount : ds.length = digitCount b.toNat := by
    rw [← length_decimal, heq, List.length_map]
  have hlog : Nat.log 10 b.toNat < 3 :=
    Nat.log_lt_of_lt_pow' (by decide) (b.toNat_lt.trans (by decide))
  have hends : Ends (0x2E :: appendTo4 (c :: bs)) := by
    rintro x ⟨⟩
    decide
  unfold digitCount at hcount
  refine ⟨0 + ds.length, spelled 0 ds, by omega, ?_⟩
  rw [appendTo4_cons, heq, readGroup_hexDigits hds (by omega) (by decide) hends]

/-- The loop reads an embedded IPv4 address after the ellipsis. -/
theorem parseGroups_appendTo4 (ip : Bytes) {bs : Bytes} (h : bs.length = 4) (hip : ip.length ≤ 12)
    (room ellipsis : Nat) : parseGroups (room + 1) ip (some ellipsis) (appendTo4 bs) =
      some (ip ++ bs, some ellipsis, []) := by
  match bs with
  | b :: c :: bs =>
    have hfields := parseIPv4Fields_appendTo4 [] (List.cons_ne_nil b (c :: bs)) (by
      rw [h, List.length_nil])
    obtain ⟨off, acc, hoff, hread⟩ := readGroup_appendTo4 b c bs
    have hfits : ¬ 16 < ip.length + 4 := by omega
    simp [parseGroups, hread, hoff, hfits, hfields]

/-- An IPv4-mapped address is read back. -/
theorem parseIPv6_mapped {bs : Bytes} (h : bs.length = 4) :
    parseIPv6 (ascii "::ffff:" ++ appendTo4 bs) =
      some (List.replicate 10 0 ++ [0xFF, 0xFF] ++ bs) := by
  have htext : ascii "::ffff:" ++ appendTo4 bs =
      0x3A :: 0x3A :: (appendHex 0xFFFF ++ 0x3A :: appendTo4 bs) := by
    have hascii : ascii "::ffff:" = 0x3A :: 0x3A :: (appendHex 0xFFFF ++ [0x3A]) := by decide
    rw [hascii]
    simp
  have hgroup := parseGroups_group (g := 0xFFFF) (by decide) (endsGroup_colon (appendTo4 bs)) 7 []
    (some 0)
  have hembedded := parseGroups_appendTo4 (bytesOf [0xFFFF]) h (by decide) 6 0
  -- the address starts with a digit, so there is no second ellipsis
  have hafter : afterGroup (parseGroups 7) (bytesOf [0xFFFF]) (some 0) (0x3A :: appendTo4 bs) =
      parseGroups 7 (bytesOf [0xFFFF]) (some 0) (appendTo4 bs) := by
    match bs with
    | b :: c :: bs =>
      obtain ⟨d, s, hd, hhead⟩ := appendTo4_head b c bs
      have hcolon := (hexDigit_ne d hd).2.2.1
      simp [hhead, afterGroup, hcolon]
  rw [List.nil_append, hafter, hembedded] at hgroup
  rw [htext, parseIPv6_leading, if_neg (by simp), hgroup]
  have hmissing : 16 - (bytesOf [0xFFFF] ++ bs).length = 10 := by
    rw [List.length_append, length_bytesOf, h, List.length_singleton]
  have hbytes : bytesOf [0xFFFF] = [0xFF, 0xFF] := by decide
  dsimp only
  rw [expand, if_pos (by omega), hmissing, hbytes]
  rfl

/-! ## Characters -/

theorem appendTo4_digits (bs : Bytes) : ∀ c ∈ appendTo4 bs, isDigit c = true ∨ c = 0x2E := by
  match bs with
  | [] => simp [appendTo4]
  | [b] => exact fun c hc => .inl (decimal_digits _ c hc)
  | b :: b' :: bs =>
    intro c hc
    rw [appendTo4_cons, List.mem_append, List.mem_cons] at hc
    rcases hc with hc | hc | hc
    · exact .inl (decimal_digits _ c hc)
    · exact .inr hc
    · exact appendTo4_digits (b' :: bs) c hc

theorem joinGroups_digits {gs : List Nat} (hle : ∀ g ∈ gs, g ≤ 0xFFFF) :
    ∀ c ∈ joinGroups gs, (∃ d, d < 16 ∧ c = hexDigit d) ∨ c = 0x3A := by
  match gs with
  | [] => simp [joinGroups]
  | [g] => exact fun c hc => .inl (appendHex_digits (hle g List.mem_cons_self) c hc)
  | g :: g' :: gs =>
    intro c hc
    rw [joinGroups_cons, List.mem_append, List.mem_cons] at hc
    rcases hc with hc | hc | hc
    · exact .inl (appendHex_digits (hle g List.mem_cons_self) c hc)
    · exact .inr hc
    · exact joinGroups_digits (fun x hx => hle x (List.mem_cons_of_mem _ hx)) c hc

theorem appendTo6_digits {gs : List Nat} (hle : ∀ g ∈ gs, g ≤ 0xFFFF) :
    ∀ c ∈ appendTo6 gs, (∃ d, d < 16 ∧ c = hexDigit d) ∨ c = 0x3A := by
  intro c hc
  unfold appendTo6 at hc
  split at hc
  · exact joinGroups_digits hle c hc
  · simp only [List.mem_append, List.mem_cons] at hc
    rcases hc with hc | hc | hc | hc
    · exact joinGroups_digits (fun x hx => hle x (List.mem_of_mem_take hx)) c hc
    · exact .inr hc
    · exact .inr hc
    · exact joinGroups_digits (fun x hx => hle x (List.mem_of_mem_drop hx)) c hc

theorem colon_mem_appendTo6 {gs : List Nat} (h : 2 ≤ gs.length) : 0x3A ∈ appendTo6 gs := by
  unfold appendTo6
  split
  · match gs with
    | g :: g' :: gs =>
      rw [joinGroups_cons]
      simp
  · simp

end IpText
