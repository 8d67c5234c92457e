import Mcc.Model.Serial

/-!
# `Correctness.Serial` — when reading a packet copes with what `read` returns

`Readn` adds what `Read` returns to its count, the -1 of an error too. A result that delivers nothing leaves it no
less to read than before, so the loop does not end with it; while every result delivers something, the count is what
has been delivered (`delivered_of_run`), and the loop does all it should. `serial_copes_iff` says so of every run, of any
length: a sequence of results that does not end is as good as each of its beginnings.

## Contents
- **`Readn`.** What a run leaves, and `readn_copes_iff`.
- **The first byte.** `resync_copes_iff`.
- **Both.** `serial_copes_iff`, and what the two loops leave where they cope, in the words of `Model.Jxj`.
-/

namespace Mcc

namespace Serial

open Transition

variable {rs : List ReadResult}

/-- All that a list of results delivers. -/
def delivered (rs : List ReadResult) : List Byte := rs.flatMap ReadResult.data

theorem count_nonpos {r : ReadResult} (h : r.Fails) : r.count ≤ 0 := by
  cases r with
  | error => simp [ReadResult.count]
  | eof => simp [ReadResult.count]
  | bytes => cases h

theorem count_eq {r : ReadResult} (h : ¬ r.Fails) : r.count = r.data.length := by
  cases r with
  | error => exact absurd rfl h
  | eof => exact absurd rfl h
  | bytes => simp [ReadResult.count, ReadResult.data]

/-- What `read` returns, one after the other: so often, or without end. -/
inductive Results where
  | finite (rs : List ReadResult)
  | infinite (results : ℕ → ReadResult)

/-- `pre` are the first results. -/
def Results.Begins : Results → List ReadResult → Prop
  | finite rs, pre => pre <+: rs
  | infinite results, pre => pre = (List.range pre.length).map results

theorem Results.Begins.mono {results : Results} {pre pre' : List ReadResult} (h : results.Begins pre)
    (hbefore : pre' <+: pre) : results.Begins pre' := by
  cases results with
  | finite rs => exact hbefore.trans h
  | infinite results =>
    unfold Begins at h ⊢
    have htake := List.prefix_iff_eq_take.mp hbefore
    rw [h, ← List.map_take, List.take_range, Nat.min_eq_left hbefore.length_le] at htake
    exact htake

/-! ## `Readn` -/

theorem storesAt_append (p : Int) (bs bs' : List Byte) :
    storesAt p (bs ++ bs') = storesAt p bs ++ storesAt (p + bs.length) bs' := by
  unfold storesAt
  simp [List.mapIdx_append, Int.add_left_comm, Int.add_comm]

theorem mem_storesAt {p : Int} {bs : List Byte} {w : Int × Byte} (h : w ∈ storesAt p bs) :
    p ≤ w.1 ∧ w.1 < p + bs.length := by
  obtain ⟨i, hi, rfl⟩ := List.mem_mapIdx.mp h
  exact ⟨by simp, by simpa using hi⟩

namespace Readn

variable {s s' : Readn} {len : ℕ}

/-- **A loop that copes**, when it has read `rs`: the count keeps to its bounds and the writes to the buffer, the
length is returned for so many bytes in their order, and a result without a byte was the last one. -/
structure Copes (len : ℕ) (rs : List ReadResult) (s : Readn) : Prop where
  bounds : 0 ≤ s.nRead ∧ s.nRead ≤ len
  inside : ∀ w ∈ s.stores, 0 ≤ w.1 ∧ w.1 < len
  complete : ∀ n, s.result = some n → n = len ∧ s.stores = storesAt 0 (delivered rs) ∧ (delivered rs).length = len
  ends : ∀ r ∈ rs.getLast?, r.Fails → s.result.isSome

theorem left_of_run (h : Run Step (start len) rs s) : s.total = (len : Int) ∧ s.left = s.total - s.nRead := by
  refine h.invariant (I := fun s => s.total = (len : Int) ∧ s.left = s.total - s.nRead) ?_ ⟨rfl, by simp [start]⟩
  rintro s r s' ⟨htotal, -⟩ hstep
  cases hstep
  exact ⟨htotal, rfl⟩

/-- A result without a byte does not end the loop. -/
theorem Step.result_of_fails {r : ReadResult} (h : Step s r s') (hleft : s.left = s.total - s.nRead)
    (hfails : r.Fails) : s'.result = none := by
  have hcount := count_nonpos hfails
  cases h with
  | round hpos =>
    have hstill : (s.round r).left > 0 := by
      simp only [Readn.round]
      omega
    simp [result, hstill]

/-- **What has been read**, while every result delivers something. -/
theorem delivered_of_run (h : Run Step s rs s') (hrs : ∀ r ∈ rs, ¬ r.Fails) (hleft : s.left = s.total - s.nRead)
    (hle : s.nRead ≤ s.total) : s'.nRead = s.nRead + (delivered rs).length ∧
      s'.stores = s.stores ++ storesAt s.nRead (delivered rs) ∧ s'.nRead ≤ s'.total := by
  induction h with
  | nil => simp [delivered, storesAt, hle]
  | @cons s s₁ s' r rs hstep _ ih =>
    obtain ⟨hr, hrs⟩ := List.forall_mem_cons.mp hrs
    have hcount := count_eq hr
    cases hstep with
    | round hpos hfits =>
      obtain ⟨hread, hstores, hbound⟩ := ih hrs rfl (by simp only [round]; omega)
      refine ⟨?_, ?_, hbound⟩
      · rw [hread]
        simp only [round, delivered, List.flatMap_cons, List.length_append, hcount]
        omega
      · rw [hstores]
        simp only [round, delivered, List.flatMap_cons, storesAt_append, hcount, List.append_assoc]

theorem copes_of_run (h : Run Step (start len) rs s) (hrs : ∀ r ∈ rs, ¬ r.Fails) : Copes len rs s := by
  obtain ⟨htotal, hleft⟩ := left_of_run h
  obtain ⟨hread, hstores, hbound⟩ := delivered_of_run h hrs (by simp [start]) (by simp [start])
  simp only [start, Int.zero_add, List.nil_append] at hread hstores
  refine ⟨⟨by omega, by omega⟩, ?_, ?_, ?_⟩
  · intro w hw
    rw [hstores] at hw
    have hrange := mem_storesAt hw
    omega
  · intro n hn
    unfold result at hn
    split_ifs at hn with hpos
    exact ⟨(Option.some.inj hn).symm.trans htotal, hstores, by omega⟩
  · intro r hr hfails
    exact absurd hfails (hrs r (List.mem_of_getLast? hr))

/-- The loop copes, whatever it has read of the results. -/
def CopesWith (len : ℕ) (results : Results) : Prop :=
  ∀ rs s, results.Begins rs → Run Step (start len) rs s → Copes len rs s

/-- **`Readn` copes** exactly with results each of which delivers something, as far as the loop reads them. -/
theorem readn_copes_iff (len : ℕ) (results : Results) : CopesWith len results ↔
    ∀ rs s, results.Begins rs → Run Step (start len) rs s → ∀ r ∈ rs, ¬ r.Fails := by
  constructor
  · intro hcopes rs s hbegins h r hr hfails
    obtain ⟨pre, s₁, s₂, post, rfl, hpre, hstep, -⟩ := h.through hr
    have hends := (hcopes (pre ++ [r]) s₂ (hbegins.mono (by simp)) (hpre.snoc hstep)).ends r (by simp) hfails
    rw [hstep.result_of_fails (left_of_run hpre).2 hfails] at hends
    exact absurd hends (by simp)
  · intro hdelivers rs s hbegins h
    exact copes_of_run h (hdelivers rs s hbegins h)

end Readn

/-! ## The first byte -/

namespace Resync

variable {s s' : Resync} {b : Byte}

/-- **A loop that copes**: a result without a byte was the last one, and what is tested is what was read. -/
structure Copes (rs : List ReadResult) (s : Resync) : Prop where
  ends : ∀ r ∈ rs.getLast?, r.Fails → s.goesOn = false
  tested : ∀ r ∈ rs.getLast?, r.data = [s.buf0]

theorem round_goesOn (s : Resync) (r : ReadResult) : (s.round r).goesOn = decide ((s.round r).buf0 ≠ 0xff) := rfl

/-- One byte is asked for. -/
theorem Step.data_eq {r : ReadResult} (h : Step s r s') (hr : ¬ r.Fails) : r.data = [s'.buf0] := by
  cases h with
  | round hgoes hcount =>
    cases r with
    | error => exact absurd rfl hr
    | eof => exact absurd rfl hr
    | bytes b bs =>
      have hnone : bs = [] := by
        simp only [ReadResult.count] at hcount
        exact List.eq_nil_of_length_eq_zero (by omega)
      simp [ReadResult.data, hnone, Resync.round]

/-- The loop copes, whatever it has read of the results. -/
def CopesWith (b : Byte) (results : Results) : Prop :=
  ∀ rs s, results.Begins rs → Run Step (start b) rs s → Copes rs s

/-- **The loop copes** exactly with results each of which delivers its byte, as far as it reads them. -/
theorem resync_copes_iff (b : Byte) (results : Results) : CopesWith b results ↔
    ∀ rs s, results.Begins rs → Run Step (start b) rs s → ∀ r ∈ rs, ¬ r.Fails := by
  constructor
  · intro hcopes rs s hbegins h r hr hfails
    obtain ⟨pre, s₁, s₂, post, rfl, hpre, hstep, -⟩ := h.through hr
    have htested := (hcopes (pre ++ [r]) s₂ (hbegins.mono (by simp)) (hpre.snoc hstep)).tested r (by simp)
    rw [hfails] at htested
    exact absurd htested (by simp)
  · intro hdelivers rs s hbegins h
    have hlast (r : ReadResult) (hr : r ∈ rs.getLast?) : ¬ r.Fails ∧ r.data = [s.buf0] := by
      have hr' := hdelivers rs s hbegins h r (List.mem_of_getLast? hr)
      obtain ⟨pre, rfl⟩ := List.getLast?_eq_some_iff.mp hr
      obtain ⟨s₁, -, hone⟩ := h.split
      cases hone with
      | cons hstep hnil =>
        cases hnil
        exact ⟨hr', hstep.data_eq hr'⟩
    exact ⟨fun r hr hfails => absurd hfails (hlast r hr).1, fun r hr => (hlast r hr).2⟩

end Resync

/-! ## Both -/

/-- **When reading copes** with what `read` returns, for ever or not: no result that one of the loops reads is -1
or 0. -/
theorem serial_copes_iff (len : ℕ) (b : Byte) (results results' : Results) :
    Readn.CopesWith len results ∧ Resync.CopesWith b results' ↔
      (∀ rs s, results.Begins rs → Run Readn.Step (Readn.start len) rs s → ∀ r ∈ rs, ¬ r.Fails) ∧
        ∀ rs s, results'.Begins rs → Run Resync.Step (Resync.start b) rs s → ∀ r ∈ rs, ¬ r.Fails :=
  and_congr (Readn.readn_copes_iff len results) (Resync.resync_copes_iff b results')

/-- **The port is closed** after two of seven bytes, and the loop goes on. -/
theorem readn_goes_on : ¬ ∀ (len : ℕ) (b : Byte) (results results' : Results),
    Readn.CopesWith len results ∧ Resync.CopesWith b results' := by
  intro h
  have hrun : Run Readn.Step (Readn.start 7) [.bytes 1 [2], .error] _ :=
    .cons (.round (by decide) (by decide)) (.cons (.round (by decide) (by decide)) .nil)
  have hcopes := (h 7 0 (.finite [.bytes 1 [2], .error]) (.finite [])).1 _ _ List.prefix_rfl hrun
  have hends := hcopes.ends .error (by simp) (by decide)
  exact absurd hends (by decide)

/-- The loop for the first byte takes from the port what `readStart` does. -/
theorem readStart_of_resync {s s' : Resync} (h : Run Resync.Step s rs s') (hrs : ∀ r ∈ rs, ¬ r.Fails)
    (hgoes : s.goesOn = true) (hdone : s'.goesOn = false) (rest : List Byte) :
    KeyboardJXJ.readStart (delivered rs ++ rest) = some rest := by
  induction h with
  | nil => exact absurd (hgoes.symm.trans hdone) (by simp)
  | @cons s s₁ s' r rs hstep hrest ih =>
    obtain ⟨hr, hrs⟩ := List.forall_mem_cons.mp hrs
    have hdata := hstep.data_eq hr
    have hsplit : delivered (r :: rs) ++ rest = s₁.buf0 :: (delivered rs ++ rest) := by
      simp [delivered, hdata]
    rw [hsplit, KeyboardJXJ.readStart]
    cases hstep with
    | round hgoes hcount =>
      by_cases hstart : (s.round r).buf0 = 0xff
      · -- the loop ends here
        have hstops : (s.round r).goesOn = false := by simp [Resync.round_goesOn, hstart]
        cases hrest with
        | nil => simp [hstart, delivered]
        | cons hnext =>
          cases hnext with
          | round hagain => exact absurd (hagain.symm.trans hstops) (by simp)
      · have hgoes' : (s.round r).goesOn = true := by simpa [Resync.round_goesOn] using hstart
        rw [if_neg hstart]
        exact ih hrs hgoes' hdone

/-- `Readn` takes from the port what `readRest` does. -/
theorem readRest_of_readn {s : Readn} (h : Run Readn.Step (Readn.start 7) rs s) (hrs : ∀ r ∈ rs, ¬ r.Fails)
    (hdone : s.result.isSome) (rest : List Byte) : ∃ packet : JxjPacket, packet.toList = 0xff :: delivered rs ∧
      KeyboardJXJ.readRest (delivered rs ++ rest) = some (packet, rest) := by
  obtain ⟨n, hn⟩ := Option.isSome_iff_exists.mp hdone
  obtain ⟨-, -, hlength⟩ := (Readn.copes_of_run h hrs).complete n hn
  match delivered rs, hlength with
  | [b1, b2, b3, b4, b5, b6, b7], _ =>
    exact ⟨⟨0xff, b1, b2, b3, b4, b5, b6, b7⟩, by simp [JxjPacket.toList], by simp [KeyboardJXJ.readRest]⟩

end Serial

end Mcc
