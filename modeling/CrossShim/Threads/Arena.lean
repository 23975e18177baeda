import CrossShim.Lib.OrdMap
import CrossShim.Lib.Word

/-!
# The arenas of guest threads

Every guest thread gets a stack and a TLS block from one of two arenas: `allocate_thread_stack` and
`allocate_thread_tls` are one function at two sets of constants (`Kind`).  A region comes from the free list of
regions of exited threads, or from the end of the arena; it is then counted against the budget of guest mappings,
and a new region is mapped.  The two parts are separate critical sections in the source, and are separate here:
`Arena.take` and `Arena.commit`.
-/

namespace CrossShim.Threads

open Lib List BitVec

/-! ### The budget of mappings -/

/-- The guest's mappings, and how many are held under each key. -/
structure Vmas where
  count : ℕ
  reservations : OrdMap Word ℕ

def guestVmaLimit : ℕ := 4096

namespace Vmas

def init : Vmas := ⟨0, .empty⟩

/-- `hle_try_reserve_vmas`. -/
def tryReserve (v : Vmas) (key : Word) (count : ℕ) : Option Vmas :=
  if key = 0 ∨ count = 0 then some v
  else if v.count + count > guestVmaLimit then none
  else some ⟨v.count + count, v.reservations.insert key ((v.reservations.find? key).getD 0 + count)⟩

/-- `hle_release_vmas`. -/
def release (v : Vmas) (key : Word) : Vmas :=
  if key = 0 then v
  else
    match v.reservations.find? key with
    | none => v
    | some count => ⟨v.count - count, v.reservations.erase key⟩

end Vmas

/-! ### Arenas -/

inductive Kind where
  | stack
  | tls
  deriving DecidableEq

namespace Kind

/-- `QEMU_THREAD_STACK_BASE` and `QEMU_THREAD_TLS_BASE`. -/
def base : Kind → Word
  | stack => 0x90000000
  | tls => 0xD0000000

def size : Kind → Word
  | stack => 0x100000
  | tls => 0x10000

/-- `QEMU_THREAD_STACK_CEILING` and `QEMU_THREAD_TLS_CEILING`. -/
def ceiling : Kind → Word
  | stack => 0xA0000000
  | tls => 0xE0000000

/-- Where in its region the address lies that a thread is given. -/
def offset : Kind → Word
  | stack => 0x100000 - 0x100
  | tls => 8

def vmas : Kind → ℕ
  | stack => 2
  | tls => 1

end Kind

/-- An arena: its next new region, and the free list, last pushed first. -/
structure Arena where
  next : Word
  free : List Word
  deriving DecidableEq

namespace Arena

def init (k : Kind) : Arena := ⟨k.base, []⟩

def push (a : Arena) (region : Word) : Arena := { a with free := region :: a.free }

/-- A region and whether it is recycled; nothing if the arena is exhausted. -/
def take (k : Kind) (a : Arena) : Option ((Word × Bool) × Arena) :=
  match a.free with
  | region :: rest => some ((region, true), { a with free := rest })
  | [] =>
    if a.next + k.size > k.ceiling then none
    else some ((a.next, false), { a with next := a.next + k.size })

/-- Reserve and map a region that was taken, and the address in it for the thread. A new region is not put on the free
list when the budget is exhausted. -/
def commit (k : Kind) (a : Arena) (v : Vmas) (region : Word) (recycled mapOk : Bool) :
    Arena × Vmas × Option Word :=
  let address := region + k.offset
  match v.tryReserve address k.vmas with
  | none => (if recycled then a.push region else a, v, none)
  | some v' =>
    if !recycled && !mapOk then (a.push region, v'.release address, none) else (a, v', some address)

/-- `recycle_thread_arena`, for one of the two addresses of a thread. -/
def recycle (k : Kind) (a : Arena) (address : Word) : Arena :=
  let region := address - k.offset
  if address ≠ 0 ∧ k.base ≤ region ∧ region < k.ceiling then a.push region else a

section Cases

variable {k : Kind} {a a' : Arena} {region : Word} {recycled : Bool}

lemma take_cases (h : a.take k = some ((region, recycled), a')) :
    (recycled = true ∧ a.free = region :: a'.free ∧ a'.next = a.next) ∨
      (recycled = false ∧ a.free = [] ∧ region = a.next ∧ a.next + k.size ≤ k.ceiling ∧
        a' = ⟨a.next + k.size, []⟩) := by
  unfold take at h
  cases hf : a.free with
  | nil =>
    rw [hf] at h
    dsimp only at h
    split at h
    · cases h
    · rename_i hlt
      cases h
      exact .inr ⟨rfl, rfl, rfl, by bv_omega, rfl⟩
  | cons x rest =>
    rw [hf] at h
    cases h
    exact .inl ⟨rfl, rfl, rfl⟩

lemma commit_cases (k : Kind) (a : Arena) (v : Vmas) (region : Word) (recycled mapOk : Bool) :
    (∃ v', a.commit k v region recycled mapOk = (a, v', some (region + k.offset))) ∨
      ∃ a' v', a.commit k v region recycled mapOk = (a', v', none) ∧ (a' = a ∨ a' = a.push region) := by
  unfold commit
  dsimp only
  cases v.tryReserve (region + k.offset) k.vmas with
  | none =>
    cases recycled
    · exact .inr ⟨_, _, rfl, .inl rfl⟩
    · exact .inr ⟨_, _, rfl, .inr rfl⟩
  | some v' =>
    cases recycled <;> cases mapOk
    · exact .inr ⟨_, _, rfl, .inr rfl⟩
    · exact .inl ⟨_, rfl⟩
    · exact .inl ⟨_, rfl⟩
    · exact .inl ⟨_, rfl⟩

end Cases

/-! ### Regions -/

/-- The `i`-th region of an arena. -/
structure Slot (k : Kind) (region : Word) (i : ℕ) : Prop where
  eq : region.toNat = k.base.toNat + i * k.size.toNat
  fits : region.toNat + k.size.toNat ≤ k.ceiling.toNat

/-- The region that `recycle_thread_arena` takes an address to lie in. -/
def regionOf (k : Kind) (address : Word) : Option Word :=
  if address ≠ 0 ∧ k.base ≤ address - k.offset ∧ address - k.offset < k.ceiling then some (address - k.offset) else none

lemma recycle_eq (k : Kind) (a : Arena) (address : Word) : a.recycle k address = (regionOf k address).elim a a.push := by
  unfold regionOf
  split
  · exact if_pos ‹_›
  · exact if_neg ‹_›

lemma eq_of_regionOf {k : Kind} {address region : Word} (h : regionOf k address = some region) :
    region = address - k.offset :=
  (Option.some.inj (Option.ite_none_right_eq_some.1 h).2).symm

@[simp] lemma recycle_zero (k : Kind) (a : Arena) : a.recycle k 0 = a := by
  unfold recycle
  exact if_neg fun h => h.1 rfl

lemma Slot.regionOf {k : Kind} {address : Word} {i : ℕ} (h : Slot k (address - k.offset) i) :
    regionOf k address = some (address - k.offset) := by
  refine if_pos ⟨?_, ?_, ?_⟩
  · obtain ⟨h1, h2⟩ := h
    cases k <;> simp only [Kind.base, Kind.size, Kind.ceiling, Kind.offset] at * <;> bv_omega
  · have := h.eq
    rw [le_def]
    omega
  · have := h.fits
    have hs : 0 < k.size.toNat := by cases k <;> decide
    rw [lt_def]
    omega

/-! ### Who holds which region -/

/-- The regions handed out: each is free or held by one holder, and all lie below the next new one. -/
structure Inv (k : Kind) (a : Arena) (holds : ℕ → Word → Prop) : Prop where
  next : ∃ i, a.next.toNat = k.base.toNat + i * k.size.toNat
  le : a.next ≤ k.ceiling
  free : ∀ r ∈ a.free, (∃ i, Slot k r i) ∧ r < a.next
  held : ∀ n r, holds n r → (∃ i, Slot k r i) ∧ r < a.next
  nodup : a.free.Nodup
  apart : ∀ n r, holds n r → r ∉ a.free
  unique : ∀ m n r, holds m r → holds n r → m = n

section Inv

variable {k : Kind} {a a' : Arena} {holds holds' : ℕ → Word → Prop} {region : Word} {n : ℕ}

lemma inv_init (k : Kind) (h : ∀ n r, ¬ holds n r) : Inv k (.init k) holds where
  next := ⟨0, by simp [init]⟩
  le := by cases k <;> decide
  free _ h := absurd h not_mem_nil
  held n r hr := absurd hr (h n r)
  nodup := nodup_nil
  apart n r hr := absurd hr (h n r)
  unique m n r hr := absurd hr (h m r)

lemma Inv.mono (hi : Inv k a holds) (h : ∀ n r, holds' n r → holds n r) : Inv k a holds' := { hi with
  held := fun n r hr => hi.held n r (h n r hr)
  apart := fun n r hr => hi.apart n r (h n r hr)
  unique := fun m n r hm hn => hi.unique m n r (h m r hm) (h n r hn) }

lemma Inv.push (hi : Inv k a holds) (hr : holds n region) (h : ∀ m r, holds' m r → holds m r ∧ r ≠ region) :
    Inv k (a.push region) holds' := { hi.mono fun m r hm => (h m r hm).1 with
  free := forall_mem_cons.2 ⟨hi.held n region hr, hi.free⟩
  nodup := nodup_cons.2 ⟨hi.apart n region hr, hi.nodup⟩
  apart := fun m r hm => not_mem_cons_of_ne_of_not_mem (h m r hm).2 (hi.apart m r (h m r hm).1) }

lemma Inv.slot_next (hi : Inv k a holds) (hfit : a.next + k.size ≤ k.ceiling) :
    (∃ i, Slot k a.next i) ∧ (a.next + k.size).toNat = a.next.toNat + k.size.toNat := by
  obtain ⟨i, hnext⟩ := hi.next
  have hle := hi.le
  have hadd : (a.next + k.size).toNat = a.next.toNat + k.size.toNat := by
    cases k <;> simp only [Kind.size, Kind.ceiling] at * <;> bv_omega
  refine ⟨⟨i, hnext, ?_⟩, hadd⟩
  rw [le_def] at hfit
  omega

lemma Inv.give (hi : Inv k a holds) (hs : (∃ i, Slot k region i) ∧ region < a.next) (hfree : region ∉ a.free)
    (hfresh : ∀ m, ¬ holds m region) (h : ∀ m r, holds' m r → holds m r ∨ (m = n ∧ r = region)) :
    Inv k a holds' := by
  refine { hi with held := fun m r hm => ?_, apart := fun m r hm => ?_, unique := fun m m' r hm hm' => ?_ }
  · rcases h m r hm with hm | ⟨-, rfl⟩
    · exact hi.held m r hm
    · exact hs
  · rcases h m r hm with hm | ⟨-, rfl⟩
    · exact hi.apart m r hm
    · exact hfree
  · rcases h m r hm with h₁ | ⟨rfl, rfl⟩ <;> rcases h m' r hm' with h₂ | ⟨rfl, h₂⟩
    · exact hi.unique m m' r h₁ h₂
    · exact absurd (h₂ ▸ h₁) (hfresh m)
    · exact absurd h₂ (hfresh m')
    · rfl

/-- **A region is taken**: nobody held it. -/
theorem Inv.take {recycled : Bool} (hi : Inv k a holds) (ht : a.take k = some ((region, recycled), a'))
    (h : ∀ m r, holds' m r → holds m r ∨ (m = n ∧ r = region)) :
    Inv k a' holds' ∧ (∃ i, Slot k region i) ∧ ∀ m, ¬ holds m region := by
  rcases take_cases ht with ⟨-, hf, hnext⟩ | ⟨-, hf, rfl, hfit, rfl⟩
  · have hmem : region ∈ a.free := hf ▸ mem_cons_self ..
    have hsub : ∀ r ∈ a'.free, r ∈ a.free := fun r hr => hf ▸ mem_cons_of_mem _ hr
    have hnd := hi.nodup
    rw [hf, nodup_cons] at hnd
    have hfresh : ∀ m, ¬ holds m region := fun m hm => hi.apart m region hm hmem
    have hi' : Inv k a' holds :=
      ⟨hnext ▸ hi.next, hnext ▸ hi.le, fun r hr => hnext ▸ hi.free r (hsub r hr), hnext ▸ hi.held, hnd.2,
        fun m r hm hr => hi.apart m r hm (hsub r hr), hi.unique⟩
    exact ⟨hi'.give (hnext ▸ hi.free region hmem) hnd.1 hfresh h, (hi.free region hmem).1, hfresh⟩
  · obtain ⟨hslot, hadd⟩ := hi.slot_next hfit
    have hs : 0 < k.size.toNat := by cases k <;> decide
    have hlt : ∀ r : Word, r < a.next → r < a.next + k.size := fun r hr => by
      rw [lt_def] at *
      omega
    have hfresh : ∀ m, ¬ holds m a.next := fun m hm => lt_irrefl _ (hi.held m _ hm).2
    have hi' : Inv k ⟨a.next + k.size, []⟩ holds := by
      refine ⟨?_, hfit, nofun, fun m r hm => ?_, nodup_nil,
        fun _ _ _ => not_mem_nil, hi.unique⟩
      · obtain ⟨i, hnext⟩ := hi.next
        exact ⟨i + 1, by rw [hadd, hnext]; ring⟩
      · exact ⟨(hi.held m r hm).1, hlt r (hi.held m r hm).2⟩
    refine ⟨hi'.give ⟨hslot, ?_⟩ not_mem_nil hfresh h, hslot, hfresh⟩
    rw [lt_def, hadd]
    omega

end Inv

end Arena

end CrossShim.Threads
