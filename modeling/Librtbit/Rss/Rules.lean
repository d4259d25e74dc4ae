import Librtbit.Session.Folders
import Mathlib.Data.List.DropRight

/-!
# Rss/Rules — the feeds of a download rule

A rule is stored with the names of its feeds joined by commas, and read by splitting them again,
trimmed and without empty ones.  `feed_delete` goes through that reading.  `rules_exact_iff`: for
which names this is right.
-/

namespace Librtbit.Rss

open List

/-- The column `feed_name` that `rss_rule_insert` and `rss_rule_update` write… -/
def joinNames (names : List (List Char)) : List Char := [','].intercalate names

/-- …and how `rss_rule_list` reads it. -/
def splitNames (text : List Char) : List (List Char) :=
  ((text.splitOn ',').map trim).filter fun name => !name.isEmpty

/-- The tables: what is keyed by the name of a feed, and the rules with their column `feed_name`. -/
structure RssDb (F I R : Type) where
  feeds : List (List Char × F)
  items : List (List Char × I)
  rules : List (R × List Char)

variable {F I R : Type} {name text : List Char}

/-- `feed_delete`; each row of the rules is left, rewritten or deleted by its primary key. -/
def RssDb.feedDelete (db : RssDb F I R) (name : List Char) : RssDb F I R where
  feeds := db.feeds.filter (·.1 ≠ name)
  items := db.items.filter (·.1 ≠ name)
  rules := db.rules.filterMap fun row =>
    let names := splitNames row.2
    let others := names.filter (· ≠ name)
    if others.length = names.length then some row
    else if others.isEmpty then none
    else some (row.1, joinNames others)

/-- The rows of some rules. -/
def stored (rules : List (R × List (List Char))) : List (R × List Char) :=
  rules.map fun rule => (rule.1, joinNames rule.2)

/-- The rules without a feed. -/
def withoutFeed (name : List Char) (rules : List (R × List (List Char))) :
    List (R × List (List Char)) :=
  rules.filterMap fun rule =>
    if name ∉ rule.2 then some rule
    else if ∀ n ∈ rule.2, n = name then none
    else some (rule.1, rule.2.filter (· ≠ name))

/-- **Rules are read as they were stored, and a feed is deleted with its items and references and
nothing else.** -/
def Exact (rules : List (R × List (List Char))) : Prop :=
  (∀ rule ∈ rules, splitNames (joinNames rule.2) = rule.2) ∧
    ∀ (feeds : List (List Char × F)) (items : List (List Char × I)) (name : List Char),
      RssDb.feedDelete ⟨feeds, items, stored rules⟩ name =
        ⟨feeds.filter (·.1 ≠ name), items.filter (·.1 ≠ name), stored (withoutFeed name rules)⟩

/-! ## Names that survive -/

lemma trim_trim (text : List Char) : trim (trim text) = trim text := by
  have hhead : (trim text).dropWhile isWhitespace = trim text := by
    refine dropWhile_eq_self_iff.mpr fun hlen => ?_
    have hpre : trim text <+: text.dropWhile isWhitespace := rdropWhile_prefix ..
    rw [hpre.getElem hlen]
    exact dropWhile_get_zero_not _ _ _
  calc trim (trim text) = ((trim text).dropWhile isWhitespace).rdropWhile isWhitespace := rfl
    _ = trim text := by
      rw [hhead]
      exact rdropWhile_idempotent ..

lemma mem_of_mem_trim {c} (h : c ∈ trim text) : c ∈ text :=
  (dropWhile_sublist _).subset (( rdropWhile_prefix ..).subset h)

lemma notMem_of_mem_splitOn {sep : Char} {part} (h : part ∈ text.splitOn sep) : sep ∉ part := by
  induction text generalizing part with
  | nil => simp_all
  | cons c text ih =>
    obtain ⟨first, rest, hparts⟩ := exists_cons_of_ne_nil (splitOn_ne_nil sep text)
    rw [splitOn_cons_eq_if_modifyHead, hparts] at h
    rw [hparts] at ih
    grind [modifyHead_cons]

/-- What is read is trimmed, not empty, and without a comma. -/
lemma of_mem_splitNames (h : name ∈ splitNames text) :
    name ≠ [] ∧ ',' ∉ name ∧ trim name = name := by
  obtain ⟨hmem, hne⟩ := mem_filter.mp h
  obtain ⟨part, hpart, rfl⟩ := mem_map.mp hmem
  refine ⟨by simpa using hne, fun hcomma => ?_, trim_trim part⟩
  exact notMem_of_mem_splitOn hpart (mem_of_mem_trim hcomma)

lemma splitNames_joinNames {names}
    (h : ∀ name ∈ names, name ≠ [] ∧ ',' ∉ name ∧ trim name = name) :
    splitNames (joinNames names) = names := by
  cases names with
  | nil => rfl
  | cons first rest =>
    rw [splitNames, joinNames, splitOn_intercalate ',' (fun n hn => (h n hn).2.1) (by simp),
      map_congr_left fun n hn => (h n hn).2.2, map_id']
    exact filter_eq_self.mpr fun n hn => by simpa using (h n hn).1

/-- **The rules are exact** exactly if every name in them is trimmed, not empty, and without a
comma. -/
theorem rules_exact_iff (rules : List (R × List (List Char))) :
    Exact (F := F) (I := I) rules ↔
      ∀ rule ∈ rules, ∀ name ∈ rule.2, name ≠ [] ∧ ',' ∉ name ∧ trim name = name := by
  constructor
  · intro h rule hrule name hname
    rw [← h.1 rule hrule] at hname
    exact of_mem_splitNames hname
  intro h
  have hread : ∀ rule ∈ rules, splitNames (joinNames rule.2) = rule.2 :=
    fun rule hrule => splitNames_joinNames (h rule hrule)
  refine ⟨hread, fun feeds items name => ?_⟩
  rw [RssDb.feedDelete, stored, stored, withoutFeed, filterMap_map, map_filterMap]
  congr 1
  refine filterMap_congr fun rule hrule => ?_
  simp only [Function.comp_apply, hread rule hrule, length_filter_eq_length_iff,
    List.isEmpty_iff, filter_eq_nil_iff]
  grind

/-- A rule for a feed with a comma in its name. -/
theorem not_exact_comma : ¬ Exact (F := Unit) (I := Unit) [((), [['a', ',', 'b']])] := by
  intro h
  exact absurd (h.1 _ mem_cons_self) (by decide)

/-- `rss_rule_list`; the rows are in the order of their names. -/
def RssDb.ruleList (db : RssDb F I R) : List (R × List (List Char)) :=
  db.rules.map fun row => (row.1, splitNames row.2)

/-- **`feed_delete` takes one feed out of the listed rules**, whatever is stored. -/
theorem ruleList_feedDelete (db : RssDb F I R) (name : List Char) :
    (db.feedDelete name).ruleList = withoutFeed name db.ruleList := by
  rw [RssDb.ruleList, RssDb.ruleList, RssDb.feedDelete, withoutFeed, map_filterMap, filterMap_map]
  refine filterMap_congr fun row _ => ?_
  -- what is left of a rule is read back as it is written
  have hothers := @splitNames_joinNames ((splitNames row.2).filter (· ≠ name))
    fun n hn => of_mem_splitNames (mem_filter.mp hn).1
  simp only [Function.comp_apply, length_filter_eq_length_iff, List.isEmpty_iff,
    filter_eq_nil_iff]
  grind

end Librtbit.Rss
