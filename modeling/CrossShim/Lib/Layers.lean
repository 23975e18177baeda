import Mathlib

/-!
# Layers

A layer gives values at some places.  `paint m layers` lays them over an image one after the other, so that at
every place the last layer that covers it shows.

`paint_shows_iff` says when everything that is wanted of each layer still shows in the end, for layers that
hide each other with one fixed background value only.
-/

namespace CrossShim.Lib

open List

variable {α β : Type*}

/-- The image `m` with the layer `l` over it. -/
def overlay (l : α → Option β) (m : α → β) : α → β := fun x => (l x).getD (m x)

def paint (m : α → β) (layers : List (α → Option β)) : α → β := layers.foldl (fun m l => overlay l m) m

section

variable {m : α → β} {l : α → Option β} {layers : List (α → Option β)} {x : α} {b z : β}

lemma overlay_of_some (h : l x = some b) : overlay l m x = b := by simp [overlay, h]

lemma overlay_of_none (h : l x = none) : overlay l m x = m x := by simp [overlay, h]

@[simp] lemma paint_nil : paint m [] = m := rfl

@[simp] lemma paint_cons : paint m (l :: layers) = paint (overlay l m) layers := rfl

lemma paint_of_none (h : ∀ l ∈ layers, l x = none) : paint m layers x = m x := by
  induction layers generalizing m with
  | nil => rfl
  | cons l layers ih =>
    rw [paint_cons, ih fun l hl => h l (mem_cons_of_mem _ hl)]
    exact overlay_of_none (h l mem_cons_self)

lemma paint_of_background (hz : ∀ l ∈ layers, ∀ c, l x = some c → c = z)
    (h : (∃ l ∈ layers, l x ≠ none) ∨ m x = z) : paint m layers x = z := by
  induction layers generalizing m with
  | nil => simpa using h
  | cons l layers ih =>
    rw [paint_cons]
    refine ih (fun l hl => hz l (mem_cons_of_mem _ hl)) ?_
    cases hl : l x with
    | some c =>
      right
      rw [overlay_of_some hl]
      exact hz l mem_cons_self c hl
    | none =>
      rw [overlay_of_none hl]
      refine h.imp_left fun ⟨k, hk, hc⟩ => ⟨k, ?_, hc⟩
      refine (mem_cons.1 hk).resolve_left fun he => hc ?_
      rw [he, hl]

end

section

variable {ι : Type*} (layer want : ι → α → Option β) {z : β} {items : List ι} {m : α → β}

/-- Everything wanted of the items shows in the image. -/
def Shows (items : List ι) (m : α → β) : Prop := ∀ s ∈ items, ∀ x b, want s x = some b → m x = b

/-- **When all that is wanted shows.**  Each layer has what is wanted of it, and later layers hide it with `z`
only; then what is not `z` must not be hidden at all. -/
theorem paint_shows_iff (hw : ∀ s x b, want s x = some b → layer s x = some b)
    (hz : items.Pairwise fun s t => ∀ x b c, want s x = some b → layer t x = some c → c = z) :
    Shows want items (paint m (items.map layer)) ↔
      items.Pairwise fun s t => ∀ x b, want s x = some b → b ≠ z → layer t x = none := by
  induction items generalizing m with
  | nil => simp [Shows]
  | cons s items ih =>
    obtain ⟨hs, hrest⟩ := pairwise_cons.1 hz
    have hback : ∀ x b, want s x = some b → ∀ l ∈ items.map layer, ∀ c, l x = some c → c = z := by
      intro x b hx l hl c hc
      obtain ⟨t, ht, rfl⟩ := mem_map.1 hl
      exact hs t ht x b c hx hc
    rw [map_cons, paint_cons, pairwise_cons, ← ih hrest (m := overlay (layer s) m)]
    constructor
    · refine fun h => ⟨fun t ht x b hx hb => ?_, fun t ht => h t (mem_cons_of_mem _ ht)⟩
      by_contra hc
      refine hb (Eq.trans (h s mem_cons_self x b hx).symm ?_)
      exact paint_of_background (hback x b hx) (.inl ⟨layer t, mem_map_of_mem ht, hc⟩)
    · rintro ⟨hhead, htail⟩ t ht x b hx
      rcases mem_cons.1 ht with rfl | ht
      · have hm : overlay (layer t) m x = b := overlay_of_some (hw t x b hx)
        by_cases hb : b = z
        · rw [hb]
          exact paint_of_background (hb ▸ hback x b hx) (.inr (hm.trans hb))
        · rw [paint_of_none, hm]
          intro l hl
          obtain ⟨k, hk, rfl⟩ := mem_map.1 hl
          exact hhead k hk x b hx hb
      · exact htail t ht x b hx

end

end CrossShim.Lib
