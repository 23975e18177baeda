import CrossShim.Threads.CreateCall

/-!
# Allocating the regions of a thread

`allocate_thread_stack` and `allocate_thread_tls`, each as one step: what an allocation does that succeeds
(`Arena.Bounded.allocDone`), and what one leaves behind that fails (`Arena.Bounded.allocFailed`).

Two facts about reachable states are needed (`reachable_createInv`): the count of mappings is the sum of what is held
under the keys (`Vmas.Ok`), and the regions of an arena lie in it (`Arena.Bounded`), so that the keys of stacks and of
TLS blocks are different.
-/

namespace CrossShim.Threads

open Lib State List Function OrdMap Vmas Arena Kind

/-! ### The budget -/

/-- The count is the sum of what is held under the keys. -/
def Vmas.Ok (v : Vmas) : Prop := v.count = v.reservations.sum

section Vmas

variable {v v' : Vmas} {key key' : Word} {n : ℕ}

lemma Vmas.Ok.held_add_le (h : v.Ok) (hne : key ≠ key') : v.held key + v.held key' ≤ v.count := by
  have hsum : (v.reservations.erase key).sum + v.held key = v.reservations.sum := sum_erase_add
  have hsum' : ((v.reservations.erase key).erase key').sum + ((v.reservations.erase key).find? key').getD 0 =
      (v.reservations.erase key).sum := sum_erase_add
  rw [find?_erase_of_ne hne.symm] at hsum'
  unfold Ok at h
  unfold held at *
  omega

lemma Vmas.Ok.held_le (h : v.Ok) (key : Word) : v.held key ≤ v.count := by
  have hsum : (v.reservations.erase key).sum + v.held key = v.reservations.sum := sum_erase_add
  unfold Ok at h
  omega

lemma Vmas.Ok.tryReserve (h : v.Ok) (hr : v.tryReserve key n = some v') : v'.Ok := by
  unfold Vmas.tryReserve at hr
  split at hr
  · cases hr
    exact h
  · split at hr
    · cases hr
    · cases hr
      have hsum : (v.reservations.insert key (v.held key + n)).sum + v.held key =
          v.reservations.sum + (v.held key + n) := sum_insert_add
      unfold Ok at *
      show v.count + n = (v.reservations.insert key (v.held key + n)).sum
      omega

lemma Vmas.Ok.release (h : v.Ok) (key : Word) : (v.release key).Ok := by
  unfold Vmas.release
  split
  · exact h
  · split
    · exact h
    · rename_i count hfind
      have hsum : (v.reservations.erase key).sum + (v.reservations.find? key).getD 0 = v.reservations.sum :=
        sum_erase_add
      rw [hfind, Option.getD_some] at hsum
      unfold Ok at *
      show v.count - count = (v.reservations.erase key).sum
      omega

lemma Vmas.tryReserve_full (hk : key ≠ 0) (hn : n ≠ 0) (hfull : guestVmaLimit < v.count + n) :
    v.tryReserve key n = none := by
  unfold tryReserve
  rw [if_neg (not_or.2 ⟨hk, hn⟩), if_pos hfull]

lemma Vmas.tryReserve_room (hk : key ≠ 0) (hn : n ≠ 0) (hroom : v.count + n ≤ guestVmaLimit) :
    ∃ v', v.tryReserve key n = some v' ∧ v'.count = v.count + n ∧ v'.held key = v.held key + n ∧
      ∀ key' ≠ key, v'.held key' = v.held key' := by
  refine ⟨_, by unfold tryReserve; rw [if_neg (not_or.2 ⟨hk, hn⟩), if_neg (not_lt.2 hroom)], rfl, ?_, ?_⟩
  · show ((v.reservations.insert key _).find? key).getD 0 = _
    rw [find?_insert_self]
    rfl
  · intro key' hne
    show ((v.reservations.insert key _).find? key').getD 0 = _
    rw [find?_insert_of_ne hne]
    rfl

lemma Vmas.release_eq (hk : key ≠ 0) :
    (v.release key).count = v.count - v.held key ∧ ∀ key' ≠ key, (v.release key).held key' = v.held key' := by
  unfold release
  rw [if_neg hk]
  cases hfind : v.reservations.find? key with
  | none =>
    have hheld : v.held key = 0 := by simp [held, hfind]
    exact ⟨by rw [hheld]; rfl, fun _ _ => rfl⟩
  | some count =>
    have hheld : v.held key = count := by simp [held, hfind]
    refine ⟨by rw [hheld], fun key' hne => ?_⟩
    show ((v.reservations.erase key).find? key').getD 0 = _
    rw [find?_erase_of_ne hne]
    rfl

end Vmas

/-! ### One allocation -/

structure Arena.Bounded (k : Kind) (a : Arena) : Prop where
  lower : k.base ≤ a.next
  upper : a.next ≤ k.ceiling
  free : ∀ r ∈ a.free, k.base ≤ r ∧ r < k.ceiling

/-- `allocate_thread_stack` and `allocate_thread_tls`, with no other thread in between. -/
def Arena.alloc (k : Kind) (a : Arena) (v : Vmas) (mapOk : Bool) : Arena × Vmas × Option Word :=
  match a.take k with
  | none => (a, v, none)
  | some ((region, recycled), a') => a'.commit k v region recycled mapOk

section Alloc

variable {k : Kind} {a a' : Arena} {v : Vmas} {region : Word} {mapOk : Bool}

lemma Kind.vmas_ne_zero (k : Kind) : k.vmas ≠ 0 := by
  cases k <;> decide

lemma Arena.Bounded.upcoming (hb : a.Bounded k) :
    k.base ≤ a.upcoming k - k.offset ∧ a.upcoming k - k.offset ≤ k.ceiling := by
  unfold Arena.upcoming
  cases hf : a.free with
  | nil =>
    have hsub : a.next + k.offset - k.offset = a.next := by bv_omega
    rw [headD_nil, hsub]
    exact ⟨hb.lower, hb.upper⟩
  | cons r rest =>
    have hsub : r + k.offset - k.offset = r := by bv_omega
    obtain ⟨h1, h2⟩ := hb.free r (by rw [hf]; exact mem_cons_self)
    rw [headD_cons, hsub]
    exact ⟨h1, by bv_omega⟩

lemma Arena.Bounded.upcoming_ne_zero (hb : a.Bounded k) : a.upcoming k ≠ 0 := by
  obtain ⟨h1, h2⟩ := hb.upcoming
  cases k <;> simp only [base, ceiling, offset] at * <;> bv_omega

lemma upcoming_ne (hs : a.Bounded .stack) (ht : a'.Bounded .tls) : a'.upcoming .tls ≠ a.upcoming .stack := by
  obtain ⟨h1, h2⟩ := hs.upcoming
  obtain ⟨h3, h4⟩ := ht.upcoming
  simp only [base, ceiling, offset] at *
  bv_omega

lemma Arena.Bounded.left_next (hb : a.Bounded k) (hfit : a.next + k.size ≤ k.ceiling) :
    (k.ceiling - (a.next + k.size)).toNat / k.size.toNat + 1 = (k.ceiling - a.next).toNat / k.size.toNat := by
  have hsize : 0 < k.size.toNat := by cases k <;> decide
  have hsub : (k.ceiling - a.next).toNat = (k.ceiling - (a.next + k.size)).toNat + k.size.toNat := by
    cases k <;> simp only [size, ceiling] at * <;> bv_omega
  rw [hsub, Nat.add_div_right _ hsize]

lemma Arena.Bounded.take {recycled : Bool} (hb : a.Bounded k) (ht : a.take k = some ((region, recycled), a')) :
    a'.Bounded k ∧ a'.left k + 1 = a.left k ∧ a.upcoming k = region + k.offset ∧ (recycled = false ↔ a.free = []) ∧
      ¬ a.Exhausted k ∧ k.base ≤ region ∧ region < k.ceiling := by
  obtain ⟨rfl, hf, hnext⟩ | ⟨rfl, hf, rfl, hfit, rfl⟩ := take_cases ht
  · obtain ⟨h1, h2⟩ := hb.free region (by rw [hf]; exact mem_cons_self)
    refine ⟨⟨hnext ▸ hb.lower, hnext ▸ hb.upper, fun r hr => hb.free r ?_⟩, ?_, ?_, ?_, ?_, h1, h2⟩
    · rw [hf]
      exact mem_cons_of_mem _ hr
    · unfold left
      rw [hf, hnext, length_cons]
      omega
    · unfold Arena.upcoming
      rw [hf, headD_cons]
    · simp [hf]
    · rintro ⟨hnil, -⟩
      rw [hf] at hnil
      cases hnil
  · refine ⟨⟨?_, hfit, nofun⟩, ?_, ?_, iff_of_true rfl hf, ?_, hb.lower, ?_⟩
    · have h1 := hb.lower
      have h2 := hb.upper
      cases k <;> simp only [base, size, ceiling] at * <;> bv_omega
    · have hleft := hb.left_next hfit
      unfold left
      rw [hf]
      show 0 + (k.ceiling - (a.next + k.size)).toNat / k.size.toNat + 1 = 0 + _
      omega
    · unfold Arena.upcoming
      rw [hf, headD_nil]
    · rintro ⟨-, hlt⟩
      bv_omega
    · have h2 := hb.upper
      cases k <;> simp only [size, ceiling] at * <;> bv_omega

lemma Arena.take_none (ht : a.take k = none) : a.Exhausted k := by
  unfold take at ht
  cases hf : a.free with
  | nil =>
    rw [hf] at ht
    dsimp only at ht
    split at ht
    case isTrue hlt => exact ⟨hf, hlt⟩
    case isFalse => cases ht
  | cons r rest =>
    rw [hf] at ht
    cases ht

@[simp] lemma Arena.left_push : (a.push region).left k = a.left k + 1 := by
  simp only [left, push, length_cons]
  omega

/-- What an allocation that fails leaves: a region is lost with `leak`, mappings with `lost`. -/
structure AllocFailed (k : Kind) (a : Arena) (v : Vmas) (mapOk : Bool) (leak lost : ℕ) : Prop where
  result : (a.alloc k v mapOk).2.2 = none
  left : (a.alloc k v mapOk).1.left k + leak = a.left k
  count : (a.alloc k v mapOk).2.1.count + lost = v.count
  held : ∀ key ≠ a.upcoming k, (a.alloc k v mapOk).2.1.held key = v.held key
  lost_le : lost ≤ v.held (a.upcoming k)
  undone : (leak = 0 ∧ lost = 0) ↔ AllocUndone k a v v.count mapOk

structure AllocDone (k : Kind) (a : Arena) (v : Vmas) (mapOk : Bool) : Prop where
  result : (a.alloc k v mapOk).2.2 = some (a.upcoming k)
  left : (a.alloc k v mapOk).1.left k + 1 = a.left k
  count : (a.alloc k v mapOk).2.1.count = v.count + k.vmas
  heldKey : (a.alloc k v mapOk).2.1.held (a.upcoming k) = v.held (a.upcoming k) + k.vmas
  held : ∀ key ≠ a.upcoming k, (a.alloc k v mapOk).2.1.held key = v.held key
  recycled : (((a.alloc k v mapOk).1).recycle k (a.upcoming k)).left k = a.left k

lemma AllocUndone.fails {count : ℕ} (h : AllocUndone k a v count mapOk) : AllocFails k a count mapOk := by
  obtain h | ⟨h, -⟩ | ⟨-, h1, h2, -⟩ := h
  · exact .inl h
  · exact .inr (.inl h)
  · exact .inr (.inr ⟨h1, h2⟩)

lemma AllocUndone.congr {v' : Vmas} {count : ℕ}
    (h : v.held (a.upcoming k) = v'.held (a.upcoming k)) :
    AllocUndone k a v count mapOk ↔ AllocUndone k a v' count mapOk := by
  unfold AllocUndone
  rw [h]

lemma Arena.allocFailed_exhausted (ht : a.take k = none) : AllocFailed k a v mapOk 0 0 := by
  have halloc : a.alloc k v mapOk = (a, v, none) := by
    unfold alloc
    rw [ht]
  refine ⟨?_, ?_, ?_, ?_, Nat.zero_le _, iff_of_true ⟨rfl, rfl⟩ (.inl (take_none ht))⟩ <;> rw [halloc]
  · rfl
  · rfl
  · exact fun _ _ => rfl

lemma Arena.Bounded.allocFailed_budget {recycled : Bool} (hb : a.Bounded k)
    (ht : a.take k = some ((region, recycled), a')) (hfull : guestVmaLimit < v.count + k.vmas) :
    AllocFailed k a v mapOk (if recycled then 0 else 1) 0 := by
  obtain ⟨-, hleft, hup, hrec, hnot, -⟩ := hb.take ht
  have hnone : v.tryReserve (region + k.offset) k.vmas = none :=
    tryReserve_full (hup ▸ hb.upcoming_ne_zero) k.vmas_ne_zero hfull
  have halloc : a.alloc k v mapOk = (if recycled then a'.push region else a', v, none) := by
    simp only [alloc, ht, commit, hnone]
  cases recycled with
  | true =>
    have hne : a.free ≠ [] := fun hnil => absurd (hrec.2 hnil) nofun
    refine ⟨?_, ?_, ?_, ?_, Nat.zero_le _, iff_of_true ⟨rfl, rfl⟩ (.inr (.inl ⟨hfull, hne⟩))⟩ <;> rw [halloc]
    · exact (left_push ..).trans hleft
    · rfl
    · exact fun _ _ => rfl
  | false =>
    refine ⟨?_, ?_, ?_, ?_, Nat.zero_le _, iff_of_false nofun ?_⟩
    · rw [halloc]
    · rw [halloc]
      exact hleft
    · rw [halloc]
      rfl
    · rw [halloc]
      exact fun _ _ => rfl
    · rintro (hx | ⟨-, hne⟩ | ⟨hroom, -⟩)
      · exact hnot hx
      · exact hne (hrec.1 rfl)
      · omega

lemma Arena.Bounded.allocFailed_map (hb : a.Bounded k) (hv : v.Ok) (ht : a.take k = some ((region, false), a'))
    (hroom : v.count + k.vmas ≤ guestVmaLimit) : AllocFailed k a v false 0 (v.held (a.upcoming k)) := by
  obtain ⟨-, hleft, hup, hrec, hnot, -⟩ := hb.take ht
  have hnil := hrec.1 rfl
  have hkey := hb.upcoming_ne_zero
  obtain ⟨v', hres, hcount, hheld, hother⟩ := tryReserve_room hkey k.vmas_ne_zero hroom
  obtain ⟨hrelease, hrelother⟩ := release_eq (v := v') hkey
  have halloc : a.alloc k v false = (a'.push region, v'.release (a.upcoming k), none) := by
    rw [hup] at hres ⊢
    simp only [alloc, ht, commit, hres]
    rfl
  have hle := hv.held_le (a.upcoming k)
  refine ⟨?_, ?_, ?_, ?_, le_rfl, ?_⟩
  · rw [halloc]
  · rw [halloc]
    exact (left_push ..).trans hleft
  · rw [halloc]
    show (v'.release (a.upcoming k)).count + _ = _
    omega
  · rw [halloc]
    intro key hne
    exact (hrelother key hne).trans (hother key hne)
  · constructor
    · rintro ⟨-, hzero⟩
      exact .inr (.inr ⟨hroom, hnil, rfl, hzero⟩)
    · rintro (hx | ⟨hx, -⟩ | ⟨-, -, -, hzero⟩)
      · exact absurd hx hnot
      · omega
      · exact ⟨rfl, hzero⟩

/-- **An allocation that fails.** -/
theorem Arena.Bounded.allocFailed (hb : a.Bounded k) (hv : v.Ok) (hf : AllocFails k a v.count mapOk) :
    ∃ leak lost, AllocFailed k a v mapOk leak lost := by
  cases ht : a.take k with
  | none => exact ⟨_, _, allocFailed_exhausted ht⟩
  | some r =>
    obtain ⟨⟨region, recycled⟩, a'⟩ := r
    obtain ⟨-, -, -, hrec, hnot, -⟩ := hb.take ht
    by_cases hfull : guestVmaLimit < v.count + k.vmas
    · exact ⟨_, _, hb.allocFailed_budget ht hfull⟩
    · obtain ⟨hnil, rfl⟩ : a.free = [] ∧ mapOk = false := by
        obtain hx | hx | hx := hf
        · exact absurd hx hnot
        · exact absurd hx hfull
        · exact hx
      obtain rfl := hrec.2 hnil
      exact ⟨_, _, hb.allocFailed_map hv ht (not_lt.1 hfull)⟩

/-- **An allocation that succeeds.** -/
theorem Arena.Bounded.allocDone (hb : a.Bounded k) (hf : ¬ AllocFails k a v.count mapOk) : AllocDone k a v mapOk := by
  have hkey := hb.upcoming_ne_zero
  obtain ⟨hnot, hroom, hmap⟩ :
      ¬ a.Exhausted k ∧ v.count + k.vmas ≤ guestVmaLimit ∧ ¬ (a.free = [] ∧ mapOk = false) := by
    unfold AllocFails at hf
    rw [not_or, not_or, not_lt] at hf
    exact hf
  cases ht : a.take k with
  | none => exact absurd (take_none ht) hnot
  | some r =>
    obtain ⟨⟨region, recycled⟩, a'⟩ := r
    obtain ⟨hb', hleft, hup, hrec, -, h1, h2⟩ := hb.take ht
    have hkey : region + k.offset ≠ 0 := hup ▸ hkey
    obtain ⟨v', hres, hcount, hheld, hother⟩ := tryReserve_room hkey k.vmas_ne_zero hroom
    have halloc : a.alloc k v mapOk = (a', v', some (region + k.offset)) := by
      have hcond : (!recycled && !mapOk) = false := by
        cases recycled with
        | true => rfl
        | false =>
          cases mapOk with
          | true => rfl
          | false => exact absurd ⟨hrec.1 rfl, rfl⟩ hmap
      simp only [alloc, ht, commit, hres, hcond, Bool.false_eq_true, if_false]
    refine ⟨?_, ?_, ?_, ?_, ?_, ?_⟩ <;> rw [halloc]
    · rw [hup]
    · exact hleft
    · exact hcount
    · rw [hup]
      exact hheld
    · rw [hup]
      exact hother
    · have hsub : region + k.offset - k.offset = region := by bv_omega
      have hpush : a'.recycle k (a.upcoming k) = a'.push region := by
        simp only [recycle, hup, hsub]
        exact if_pos ⟨hkey, h1, h2⟩
      rw [hpush, left_push, hleft]

end Alloc

/-! ### Reachable states -/

/-- The region that a creation has taken and not committed. -/
def Phase.taken : Kind → Phase → Option Word
  | .stack, .tookStack _ region _ => some region
  | .tls, .tookTls _ _ region _ => some region
  | _, _ => none

structure CreateInv (s : State) : Prop where
  vmas : s.vmas.Ok
  arena : ∀ k, (s.arena k).Bounded k
  taken : ∀ n k r, (s.phase n).taken k = some r → k.base ≤ r ∧ r < k.ceiling

section Reachable

variable {s s' : State} {k : Kind} {a : Arena} {v : Vmas} {region : Word} {n : ℕ} {mapOk : Bool} {e : Event}

lemma Arena.Bounded.push (hb : a.Bounded k) (h1 : k.base ≤ region) (h2 : region < k.ceiling) :
    (a.push region).Bounded k :=
  ⟨hb.lower, hb.upper, forall_mem_cons.2 ⟨⟨h1, h2⟩, hb.free⟩⟩

lemma Arena.Bounded.recycle (hb : a.Bounded k) (address : Word) : (a.recycle k address).Bounded k := by
  simp only [Arena.recycle]
  split
  case isTrue h => exact hb.push h.2.1 h.2.2
  case isFalse => exact hb

lemma Arena.Bounded.commit (hb : a.Bounded k) (hv : v.Ok) (hr : k.base ≤ region ∧ region < k.ceiling)
    (recycled mapOk : Bool) :
    (a.commit k v region recycled mapOk).1.Bounded k ∧ (a.commit k v region recycled mapOk).2.1.Ok := by
  simp only [Arena.commit]
  cases hres : v.tryReserve (region + k.offset) k.vmas with
  | none =>
    refine ⟨?_, hv⟩
    dsimp only
    split
    case isTrue => exact hb.push hr.1 hr.2
    case isFalse => exact hb
  | some v' =>
    have hv' := hv.tryReserve hres
    dsimp only
    split
    case isTrue => exact ⟨hb.push hr.1 hr.2, hv'.release _⟩
    case isFalse => exact ⟨hb, hv'⟩

lemma Arena.Bounded.alloc_ok (hb : a.Bounded k) (hv : v.Ok) (mapOk : Bool) :
    (a.alloc k v mapOk).2.1.Ok := by
  unfold alloc
  split
  case h_1 => exact hv
  case h_2 region recycled a' ht =>
    obtain ⟨hb', -, -, -, -, hr⟩ := hb.take ht
    exact (hb'.commit hv hr recycled mapOk).2

lemma recycle_bounded (h : ∀ k, (s.arena k).Bounded k) (stackBase tlsBase : Word) (k : Kind) :
    ((s.recycle stackBase tlsBase).arena k).Bounded k := by
  cases k with
  | stack => exact (h .stack).recycle stackBase
  | tls => exact (h .tls).recycle tlsBase

lemma setArena_bounded (h : ∀ k, (s.arena k).Bounded k) (hb : a.Bounded k) (l : Kind) :
    ((s.setArena k a).arena l).Bounded l :=
  (forall_update_iff s.arena fun l a => a.Bounded l).2 ⟨hb, fun l _ => h l⟩ l

lemma failTls_inv {attr : Attr} {stackTop : Word} (hv : s.vmas.Ok) (ha : ∀ k, (s.arena k).Bounded k) :
    (s.failTls n attr stackTop).vmas.Ok ∧ ∀ k, ((s.failTls n attr stackTop).arena k).Bounded k := by
  unfold State.failTls
  split
  case isTrue => exact ⟨hv.release stackTop, fun k => recycle_bounded (s := { s with vmas := _ }) ha _ _ k⟩
  case isFalse => exact ⟨hv, ha⟩

lemma notify_inv (hv : s.vmas.Ok) (ha : ∀ k, (s.arena k).Bounded k) (order : List Word) (sp retval : Word)
    (finalize : Bool) :
    (s.notifyThreadExit order sp retval finalize).vmas.Ok ∧
      ∀ k, ((s.notifyThreadExit order sp retval finalize).arena k).Bounded k := by
  unfold State.notifyThreadExit
  split
  · exact ⟨hv, ha⟩
  · split
    · exact ⟨hv, ha⟩
    · rename_i t ht
      have hv' : ((s.vmas.release t.stackBase).release t.tlsBase).Ok := (hv.release _).release _
      split
      · exact ⟨hv, ha⟩
      · split
        · exact ⟨hv', fun k => recycle_bounded (s := { s with vmas := _, threads := _ }) ha _ _ k⟩
        · exact ⟨hv', ha⟩

lemma CreateInv.commit (hi : CreateInv s) {r : Arena × Vmas × Option Word} {recycled : Bool}
    (hp : (s.phase n).taken k = some region) (hr : (s.arena k).commit k s.vmas region recycled mapOk = r) :
    r.1.Bounded k ∧ r.2.1.Ok :=
  hr ▸ (hi.arena k).commit hi.vmas (hi.taken n k region hp) recycled mapOk

lemma CreateInv.step_data (hi : CreateInv s) (h : step s e = some s') : s'.vmas.Ok ∧ ∀ k, (s'.arena k).Bounded k := by
  have hv := hi.vmas
  have ha := hi.arena
  cases steps_of_step h with
  | tookStack hp h0 ht => exact ⟨hv, setArena_bounded ha ((ha .stack).take ht).1⟩
  | stacked hp hr => exact ⟨(hi.commit (by rw [hp]; rfl) hr).2, ha⟩
  | unstacked hp hr =>
    obtain ⟨hb, hv'⟩ := hi.commit (by rw [hp]; rfl) hr
    exact ⟨hv', setArena_bounded ha hb⟩
  | noTls => exact failTls_inv hv ha
  | tookTls hp ht => exact ⟨hv, setArena_bounded ha ((ha .tls).take ht).1⟩
  | ready hp hr => exact ⟨(hi.commit (by rw [hp]; rfl) hr).2, ha⟩
  | unready hp hr =>
    obtain ⟨hb, hv'⟩ := hi.commit (by rw [hp]; rfl) hr
    exact failTls_inv hv' (setArena_bounded ha hb)
  | reported | exited => exact notify_inv hv ha ..
  | joined | reclaimed => exact ⟨hv, fun k => recycle_bounded (s := { s with threads := _ }) ha _ _ k⟩
  | reserved key count =>
    cases hres : s.vmas.tryReserve key count with
    | none => exact ⟨hv, ha⟩
    | some v => exact ⟨hv.tryReserve hres, ha⟩
  | released key => exact ⟨hv.release key, ha⟩
  | _ => exact ⟨hv, ha⟩

lemma CreateInv.step_taken (hi : CreateInv s) (h : step s e = some s') (n : ℕ)
    (hr : (s'.phase n).taken k = some region) : k.base ≤ region ∧ region < k.ceiling := by
  obtain hsame | ⟨p, hphase, hmoves⟩ := step_phase h n
  · rw [hsame] at hr
    exact hi.taken n k region hr
  · rw [hphase] at hr
    cases hmoves with
    | tookStack hp h0 ht =>
      cases k with
      | stack =>
        cases hr
        exact ((hi.arena .stack).take ht).2.2.2.2.2
      | tls => cases hr
    | tookTls hp =>
      cases steps_of_step h with
      | noTls =>
        rw [failTls_phase, update_self] at hphase
        cases hphase
      | tookTls _ ht =>
        simp only [State.goto, update_self] at hphase
        rw [← hphase] at hr
        cases k with
        | stack => cases hr
        | tls =>
          cases hr
          exact ((hi.arena .tls).take ht).2.2.2.2.2
    | _ => cases k <;> cases hr

lemma createInv_init : CreateInv .init := by
  refine ⟨rfl, fun k => ?_, fun n k r hr => ?_⟩
  · refine ⟨?_, ?_, nofun⟩ <;> cases k <;> decide
  · cases k <;> cases hr

/-- **The invariant of the arenas and the budget.** -/
theorem reachable_createInv (hs : system.Reachable s) : CreateInv s := by
  refine hs.invariant (I := CreateInv) ?_ ?_
  · rintro _ rfl
    exact createInv_init
  · intro s e s' hi _ h
    exact ⟨(hi.step_data h).1, (hi.step_data h).2, fun n _ _ hr => hi.step_taken h n hr⟩

end Reachable

end CrossShim.Threads
