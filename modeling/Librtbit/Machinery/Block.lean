import Mathlib.Data.List.Nodup
import Mathlib.Data.List.TakeWhile

/-!
# Machinery/Block — the first run of a predicate in a list

`firstBlock c l` skips to the first element with `c` and takes elements while they have `c`.  It is
`l.filter c` exactly when the elements with `c` follow each other without a gap (`Gapless`).
-/

namespace Machinery

open List

variable {α : Type*} {c : α → Bool} {l : List α}

/-- The first run of elements with `c`. -/
def firstBlock (c : α → Bool) (l : List α) : List α := (l.dropWhile fun a => !c a).takeWhile c

/-- What follows the first run of elements with `c`. -/
def afterBlock (c : α → Bool) (l : List α) : List α := (l.dropWhile fun a => !c a).dropWhile c

/-- Between two elements with `c` there are only elements with `c`. -/
def Gapless (c : α → Bool) (l : List α) : Prop :=
  ∀ a b d, List.Sublist [a, b, d] l → c a = true → c d = true → c b = true

/-- **The elements with `c` are the first block and those after it.** -/
lemma filter_eq_firstBlock_append : l.filter c = firstBlock c l ++ (afterBlock c l).filter c := by
  have hskip : (l.takeWhile fun a => !c a).filter c = [] := by
    refine filter_eq_nil_iff.mpr fun a ha => ?_
    simpa using mem_takeWhile_imp ha
  have hblock : (firstBlock c l).filter c = firstBlock c l :=
    filter_eq_self.mpr fun a ha => mem_takeWhile_imp ha
  calc l.filter c
      = ((l.takeWhile fun a => !c a) ++ (firstBlock c l ++ afterBlock c l)).filter c := by
        rw [firstBlock, afterBlock, takeWhile_append_dropWhile, takeWhile_append_dropWhile]
    _ = firstBlock c l ++ (afterBlock c l).filter c := by
        rw [filter_append, hskip, nil_append, filter_append, hblock]

lemma disjoint_firstBlock_afterBlock (hl : l.Nodup) :
    List.Disjoint (firstBlock c l) (afterBlock c l) := by
  have hsub : List.Sublist (firstBlock c l ++ afterBlock c l) l := by
    rw [firstBlock, afterBlock, takeWhile_append_dropWhile]
    exact dropWhile_sublist _
  exact disjoint_of_nodup_append (hsub.nodup hl)

/-- An element a `dropWhile` stops at fails its test. -/
lemma eq_false_of_dropWhile_eq_cons {p a t} (h : l.dropWhile p = a :: t) : p a = false := by
  have hhead := head?_dropWhile_not p l
  rw [h] at hhead
  simpa using hhead

/-- If some element has `c`, the first block has one. -/
lemma exists_mem_firstBlock (h : ∃ a ∈ l, c a) : ∃ a ∈ firstBlock c l, c a := by
  obtain ⟨e, he, hce⟩ := h
  obtain ⟨a, t, hat⟩ : ∃ a t, (l.dropWhile fun a => !c a) = a :: t := by
    refine exists_cons_of_ne_nil fun hnil => ?_
    have := dropWhile_eq_nil_iff.mp hnil e he
    simp [hce] at this
  have ha : c a := by simpa using eq_false_of_dropWhile_eq_cons hat
  exact ⟨a, by simp [firstBlock, hat, ha], ha⟩

lemma Gapless.eq_false_of_mem_afterBlock (hgap : Gapless c l) {e}
    (he : e ∈ afterBlock c l) : c e = false := by
  by_contra hce
  rw [Bool.not_eq_false] at hce
  obtain ⟨a, t, hat⟩ : ∃ a t, (l.dropWhile fun a => !c a) = a :: t := by
    refine exists_cons_of_ne_nil fun hnil => ?_
    simp [afterBlock, hnil] at he
  have ha : c a := by simpa using eq_false_of_dropWhile_eq_cons hat
  rw [afterBlock, hat, dropWhile_cons_of_pos ha] at he
  obtain ⟨b, r, hbr⟩ : ∃ b r, t.dropWhile c = b :: r :=
    exists_cons_of_ne_nil (ne_nil_of_mem he)
  have hb : c b = false := eq_false_of_dropWhile_eq_cons hbr
  have her : e ∈ r := by
    rcases mem_cons.mp (hbr ▸ he) with rfl | her
    · rw [hb] at hce
      cases hce
    · exact her
  -- so `a`, `b`, `e` come in this order, and `b` is a gap
  have hbe : List.Sublist [b, e] t :=
    ((singleton_sublist.mpr her).cons_cons b).trans (hbr ▸ dropWhile_sublist c)
  have habe : List.Sublist [a, b, e] l := (hbe.cons_cons a).trans (hat ▸ dropWhile_sublist _)
  rw [hgap a b e habe ha hce] at hb
  cases hb

lemma gapless_of_afterBlock (hafter : ∀ a ∈ afterBlock c l, c a = false) : Gapless c l := by
  intro a b d hsub ha hd
  have hl : l = (l.takeWhile fun a => !c a) ++ (firstBlock c l ++ afterBlock c l) := by
    rw [firstBlock, afterBlock, takeWhile_append_dropWhile, takeWhile_append_dropWhile]
  rw [hl] at hsub
  obtain ⟨skipped, rest, hsplit, hskipped, hrest⟩ := sublist_append_iff.mp hsub
  obtain rfl : skipped = [] := by
    rcases skipped with _ | ⟨x, t⟩
    · rfl
    · obtain rfl : a = x := (List.cons.inj hsplit).1
      have hskip := mem_takeWhile_imp (hskipped.subset mem_cons_self)
      simp [ha] at hskip
  obtain rfl : [a, b, d] = rest := by simpa using hsplit
  obtain ⟨block, after, hsplit', hblock, hafter'⟩ := sublist_append_iff.mp hrest
  rcases eq_nil_or_concat after with rfl | ⟨init, x, rfl⟩
  · rw [append_nil] at hsplit'
    have hb : b ∈ block := by simp [← hsplit']
    exact mem_takeWhile_imp (hblock.subset hb)
  have hlast : [a, b] ++ [d] = (block ++ init) ++ [x] := by
    simpa [concat_eq_append] using hsplit'
  obtain rfl : d = x := by simpa using (append_inj' hlast rfl).2
  rw [hafter d (hafter'.subset (by simp))] at hd
  cases hd

/-- **No gap means nothing with `c` after the first block.** -/
lemma gapless_iff : Gapless c l ↔ ∀ a ∈ afterBlock c l, c a = false :=
  ⟨fun hgap _ => hgap.eq_false_of_mem_afterBlock, gapless_of_afterBlock⟩

/-- A gap survives a map. -/
lemma gapless_map {β : Type*} {f : β → α} {l : List β} :
    Gapless c (l.map f) ↔ Gapless (fun b => c (f b)) l := by
  rw [gapless_iff, gapless_iff, afterBlock, afterBlock, dropWhile_map, dropWhile_map]
  simp [Function.comp_def]

end Machinery
