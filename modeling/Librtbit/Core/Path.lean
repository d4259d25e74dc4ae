import Mathlib.Data.List.Basic

/-!
# Core/Path — `std::path` on Unix

A path is its text.  `components` reads it the way `Path::components` does: separators are
repeated at will, a `.` is dropped except at the very beginning, and two paths are equal when their
components are.
-/

namespace Librtbit

open List

/-- A path, as the text it holds. -/
abbrev PathBuf : Type := List Char

/-- `std::path::Component`; there are no prefixes on Unix. -/
inductive Component where
  | rootDir
  | curDir
  | parentDir
  | normal (name : List Char)
  deriving DecidableEq

def Component.isNormal : Component → Bool
  | .normal _ => true
  | _ => false

namespace PathBuf

/-- The component a piece of text between separators stands for, `none` if it is dropped. -/
def component? (part : List Char) : Option Component :=
  if part = [] then none
  else if part = ['.'] then none
  else if part = ['.', '.'] then some .parentDir
  else some (.normal part)

/-- What a path begins with, before its first ordinary component. -/
def lead (p : PathBuf) : List Component :=
  if p.head? = some '/' then [.rootDir]
  else if (p.splitOn '/').head? = some ['.'] then [.curDir]
  else []

/-- `Path::components`. -/
def components (p : PathBuf) : List Component := p.lead ++ (p.splitOn '/').filterMap component?

/-- `Path::is_absolute`. -/
def isAbsolute (p : PathBuf) : Bool := decide (p.head? = some '/')

/-- `PathBuf::push`. -/
def push (buf path : PathBuf) : PathBuf :=
  if path.isAbsolute then path
  else if buf.getLast?.any (· != '/') then buf ++ '/' :: path
  else buf ++ path

/-- `Path::file_stem`: the last name up to its last dot, unless there is nothing before the dot. -/
def fileStem (p : PathBuf) : Option (List Char) :=
  match p.components.getLast? with
  | some (.normal name) =>
    -- what precedes the last dot
    let stem := (name.reverse.dropWhile (· != '.')).tail.reverse
    some (if stem = [] then name else stem)
  | _ => none

/-! ## Pushing names without a separator

A path built by pushing names one by one has one component for each name that is not empty or `.`,
behind a `.` if the first of them is one. -/

lemma lead_append_sep {b} (hb : b ≠ []) (s : List Char) :
    lead (b ++ '/' :: s) = lead b := by
  have hhead : (b ++ '/' :: s).head? = b.head? := head?_append_of_ne_nil _ hb
  have hfirst : ((b ++ '/' :: s).splitOn '/').head? = (b.splitOn '/').head? := by
    rw [splitOn_append_cons_self]
    exact head?_append_of_ne_nil _ (splitOn_ne_nil _ _)
  rw [lead, lead, hhead, hfirst]

/-- The components a text adds behind a separator. -/
lemma components_append_sep {b} (hb : b ≠ []) (t : List Char) :
    components (b ++ '/' :: t) = components b ++ (t.splitOn '/').filterMap component? := by
  rw [components, lead_append_sep hb, splitOn_append_cons_self, filterMap_append, components,
    append_assoc]

lemma isAbsolute_eq_false {t} (ht : '/' ∉ t) : isAbsolute t = false := by
  rw [isAbsolute, decide_eq_false_iff_not]
  exact fun h => ht (mem_of_mem_head? h)

variable {buf : PathBuf}

/-- **Pushing a relative path onto one that is not empty appends its components.** -/
theorem components_push_of_relative {t} (hbuf : buf ≠ []) (ht : isAbsolute t = false) :
    (push buf t).components = buf.components ++ (t.splitOn '/').filterMap component? := by
  rw [push, if_neg (by simp [ht])]
  obtain ⟨b, c, rfl⟩ := (eq_nil_or_concat buf).resolve_left hbuf
  rw [concat_eq_append] at hbuf ⊢
  rcases eq_or_ne c '/' with rfl | hc
  · rw [if_neg (by simp), append_assoc, singleton_append]
    rcases eq_or_ne b [] with rfl | hb
    · have hroot s : components ('/' :: s) =
          .rootDir :: (s.splitOn '/').filterMap component? := by
        have hsplit : ('/' :: s).splitOn '/' = [] :: s.splitOn '/' := by
          simpa using splitOn_append_cons_self (a := '/') [] s
        rw [components, hsplit, filterMap_cons_none rfl]
        rfl
      rw [nil_append, hroot t]
      rfl
    · have hempty : components (b ++ ['/']) = components b := by
        simpa [component?] using components_append_sep hb []
      rw [components_append_sep hb, hempty]
  · rw [if_pos (by simp [hc]), components_append_sep hbuf]

/-- A name is one component at most. -/
lemma components_push {t} (hbuf : buf ≠ []) (ht : '/' ∉ t) :
    (push buf t).components = buf.components ++ (component? t).toList := by
  rw [components_push_of_relative hbuf (isAbsolute_eq_false ht), splitOn_eq_singleton ht]
  cases h : component? t <;> simp [h]

variable {t : PathBuf}

lemma push_ne_nil (hbuf : buf ≠ []) (ht : '/' ∉ t) :
    push buf t ≠ [] := by
  rw [push, if_neg (by simp [isAbsolute_eq_false ht])]
  split <;> simp [hbuf]

lemma push_nil_left (ht : '/' ∉ t) : push [] t = t := by
  rw [push, if_neg (by simp [isAbsolute_eq_false ht])]
  rfl

variable {ts : List PathBuf}

lemma components_foldl_push_of_ne_nil (hts : ∀ t ∈ ts, '/' ∉ t) (hbuf : buf ≠ []) :
    (ts.foldl push buf).components = buf.components ++ ts.filterMap component? := by
  induction ts generalizing buf with
  | nil => simp
  | cons t ts ih =>
    obtain ⟨ht, hts⟩ := forall_mem_cons.mp hts
    rw [foldl_cons, ih hts (push_ne_nil hbuf ht), components_push hbuf ht]
    cases h : component? t <;> simp [h]

/-- The components of a name on its own. -/
lemma components_of_not_mem (ht : '/' ∉ t) :
    t.components = (if t = ['.'] then [.curDir] else []) ++ (component? t).toList := by
  have hhead : t.head? ≠ some '/' := fun h => ht (mem_of_mem_head? h)
  rw [components, lead, if_neg hhead, splitOn_eq_singleton ht]
  cases h : component? t <;> simp [h]

/-- **The components of a path built from names**: one for each name, with a `.` in front when the
first name that is not empty is one. -/
theorem components_foldl_push (hts : ∀ t ∈ ts, '/' ∉ t) :
    (ts.foldl push []).components =
      (if ts.find? (fun t => !t.isEmpty) = some ['.'] then [.curDir] else []) ++
        ts.filterMap component? := by
  induction ts with
  | nil => rfl
  | cons t ts ih =>
    obtain ⟨ht, hrest⟩ := forall_mem_cons.mp hts
    rw [foldl_cons, push_nil_left ht]
    rcases eq_or_ne t [] with rfl | hne
    · rw [ih hrest, find?_cons_of_neg (by simp), filterMap_cons_none rfl]
    rw [components_foldl_push_of_ne_nil hrest hne, components_of_not_mem ht,
      find?_cons_of_pos (by simpa using hne), append_assoc]
    cases h : component? t <;> simp [h]

end PathBuf

end Librtbit
