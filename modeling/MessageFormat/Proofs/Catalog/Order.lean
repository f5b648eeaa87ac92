import Mathlib.Data.List.Perm.Basic
import MessageFormat.Command.Run
import MessageFormat.Proofs.Catalog.FailFast

/-!
# The order of the messages makes no difference

A catalog is determined by what it holds for its ids, so pairs with distinct ids make the same
catalog in whatever order they are put into it. A run over such pairs succeeds in every order or in
none, and it makes the same catalog and the same file of it.
-/

namespace MessageFormat

/-! ### Distinct ids -/

/-- Among pairs with distinct ids the first one of an id is the only one. -/
theorem find?_eq_some_iff_of_nodup {α : Type} {id : String} {value : α} {pairs : List (String × α)}
    (h : (pairs.map Prod.fst).Nodup) :
    (pairs.find? fun p => p.1 = id).map Prod.snd = some value ↔ (id, value) ∈ pairs := by
  induction pairs with
  | nil => exact iff_of_false nofun List.not_mem_nil
  | cons p pairs ih =>
    obtain ⟨key, old⟩ := p
    rw [List.map_cons, List.nodup_cons] at h
    by_cases hkey : key = id
    · subst hkey
      have hnot : (key, value) ∉ pairs := fun hmem => h.1 (List.mem_map.2 ⟨_, hmem, rfl⟩)
      simp [hnot, eq_comm]
    · have hne : ¬ (id, value) = (key, old) := fun heq => hkey (congrArg Prod.fst heq).symm
      rw [List.find?_cons_of_neg (by simpa using hkey), ih h.2, List.mem_cons, or_iff_right hne]

theorem lastValue?_eq_some_iff {α : Type} {id : String} {value : α} {pairs : List (String × α)}
    (h : (pairs.map Prod.fst).Nodup) : lastValue? id pairs = some value ↔ (id, value) ∈ pairs := by
  have hreverse : (pairs.reverse.map Prod.fst).Nodup := by
    rw [List.map_reverse]
    exact List.nodup_reverse.2 h
  rw [lastValue?, find?_eq_some_iff_of_nodup hreverse, List.mem_reverse]

namespace Catalog

variable {α : Type}

theorem get?_eq_some_iff {c : Catalog α} {id : String} {value : α} :
    c.get? id = some value ↔ (id, value) ∈ c.entries :=
  find?_eq_some_iff_of_nodup c.nodup_ids

/-- Catalogs that hold the same for every id are the same. -/
theorem ext_get? {c d : Catalog α} (h : ∀ id, c.get? id = d.get? id) : c = d := by
  have hmem : ∀ e, e ∈ c.entries ↔ e ∈ d.entries := by
    intro e
    rw [← get?_eq_some_iff, ← get?_eq_some_iff, h]
  have hperm : c.entries.Perm d.entries :=
    (List.perm_ext_iff_of_nodup (.of_map _ c.nodup_ids) (.of_map _ d.nodup_ids)).2 hmem
  apply ext
  refine hperm.eq_of_pairwise ?_ c.sorted d.sorted
  intro a b _ _ hlt hgt
  exact absurd hgt (String.lt_asymm hlt)

theorem insertAll_perm {pairs others : List (String × α)} (hperm : pairs.Perm others)
    (hnodup : (pairs.map Prod.fst).Nodup) : empty.insertAll pairs = empty.insertAll others := by
  have hothers : (others.map Prod.fst).Nodup := (hperm.map Prod.fst).nodup_iff.1 hnodup
  apply ext_get?
  intro id
  have hlast : lastValue? id pairs = lastValue? id others := by
    apply Option.ext
    intro value
    rw [lastValue?_eq_some_iff hnodup, lastValue?_eq_some_iff hothers, hperm.mem_iff]
  rw [get?_insertAll, get?_insertAll, hlast]

end Catalog

namespace Report

variable {α β : Type} {step : String → α → Report β} {event : String → β → Event}
  {failure : String → CatalogError → List Event} {finish : Nat → Event}
  {pairs others : List (String × α)} {catalog : Catalog β}

/-- A run succeeds exactly if all its pairs do, and what comes of them is in the catalog. -/
theorem collect_eq_ok (hlogs : Logs step event) :
    (collect step failure finish Catalog.empty pairs).outcome = .ok catalog ↔
      ∃ entries, Makes step pairs entries ∧ Catalog.empty.insertAll entries = catalog := by
  have hdone : ∀ {entries}, Makes step pairs entries →
      (collect step failure finish Catalog.empty pairs).outcome =
        .ok (Catalog.empty.insertAll entries) := by
    intro entries h
    have hcollect := collect_append hlogs failure finish h Catalog.empty []
    rw [List.append_nil] at hcollect
    rw [hcollect]
    rfl
  constructor
  · intro h
    rcases makes_or_fails step pairs with
      ⟨entries, hmakes⟩ | ⟨before, id, a, after, entries, error, rfl, hmakes, hfails⟩
    · rw [hdone hmakes] at h
      exact ⟨entries, hmakes, Except.ok.inj h⟩
    · rw [collect_append hlogs failure finish hmakes, collect, (hlogs.error hfails).1] at h
      cases h
  · rintro ⟨entries, hmakes, rfl⟩
    exact hdone hmakes

theorem collect_perm_ok (hlogs : Logs step event) (hperm : pairs.Perm others)
    (hnodup : (pairs.map Prod.fst).Nodup)
    (h : (collect step failure finish Catalog.empty pairs).outcome = .ok catalog) :
    (collect step failure finish Catalog.empty others).outcome = .ok catalog := by
  obtain ⟨entries, hmakes, rfl⟩ := (collect_eq_ok hlogs).1 h
  obtain ⟨entries', hmakes', hentries⟩ := List.perm_comp_forall₂ hperm.symm hmakes
  have hids : (entries.map Prod.fst).Nodup := hmakes.ids ▸ hnodup
  exact (collect_eq_ok hlogs).2
    ⟨entries', hmakes', (Catalog.insertAll_perm hentries.symm hids).symm⟩

/-- Two runs fail both, or they make the same catalog and of it the same file in either layout. -/
inductive SameFiles (valueJson : β → Json) (r s : Report (Catalog β)) : Prop where
  | failed {e d : CatalogError} (left : r.outcome = .error e) (right : s.outcome = .error d)
  | made {c d : Catalog β} (left : r.outcome = .ok c) (right : s.outcome = .ok d) (same : c = d)
    (bytes : ∀ layout, (fileText layout (c.toJson valueJson)).toUTF8 =
      (fileText layout (d.toJson valueJson)).toUTF8)

theorem sameFiles_collect (hlogs : Logs step event) (hperm : pairs.Perm others)
    (hnodup : (pairs.map Prod.fst).Nodup) (valueJson : β → Json) :
    SameFiles valueJson (collect step failure finish Catalog.empty pairs)
      (collect step failure finish Catalog.empty others) := by
  have hothers : (others.map Prod.fst).Nodup := (hperm.map Prod.fst).nodup_iff.1 hnodup
  cases hleft : (collect step failure finish Catalog.empty pairs).outcome with
  | ok catalog =>
    exact .made hleft (collect_perm_ok hlogs hperm hnodup hleft) rfl fun _ => rfl
  | error e =>
    cases hright : (collect step failure finish Catalog.empty others).outcome with
    | error d => exact .failed hleft hright
    | ok catalog =>
      rw [collect_perm_ok hlogs hperm.symm hothers hright] at hleft
      cases hleft

end Report

/-- Messages and trees with distinct ids can be given in any order. -/
theorem formatCatalog_printTrees_perm (parser : MessageParser) (hoist : Hoister) :
    (∀ {messages others : List (String × ExtractedMessage)}, (messages.map Prod.fst).Nodup →
      messages.Perm others → Report.SameFiles CatalogEntry.toJson
        (formatCatalog parser hoist messages) (formatCatalog parser hoist others)) ∧
    ∀ {trees others : List (String × Json)}, (trees.map Prod.fst).Nodup → trees.Perm others →
      Report.SameFiles Json.string (printTrees trees) (printTrees others) := by
  constructor
  · intro messages others hnodup hperm
    exact Report.sameFiles_collect (logs_formatEntry parser hoist) hperm hnodup _
  · intro trees others hnodup hperm
    exact Report.sameFiles_collect logs_printTree hperm hnodup _

/-- Trees of which one is no message. -/
def mixedTrees : List (String × Json) :=
  [("b", .array []), ("a", .null), ("é", .array [])]

/-- A text and a tree. -/
def mixedMessages : List (String × ExtractedMessage) :=
  [("b", ⟨.text "[\x7b\"type\":7\x7d]", none⟩), ("a", ⟨.tree (.array []), some .null⟩)]

theorem formatCatalog_printTrees_perm_mixed :
    (mixedMessages.map Prod.fst).Nodup ∧ mixedMessages.Perm mixedMessages.reverse ∧
      Report.SameFiles CatalogEntry.toJson
        (formatCatalog .elements List.reverse mixedMessages)
        (formatCatalog .elements List.reverse mixedMessages.reverse) ∧
      (formatCatalog .elements List.reverse mixedMessages).outcome.toOption.map Catalog.entries =
        some [("a", ⟨"", some "null"⟩), ("b", ⟨"#", none⟩)] ∧
      (mixedTrees.map Prod.fst).Nodup ∧ mixedTrees.Perm mixedTrees.reverse ∧
      Report.SameFiles Json.string (printTrees mixedTrees) (printTrees mixedTrees.reverse) := by
  have hmessages : (mixedMessages.map Prod.fst).Nodup := by decide
  have htrees : (mixedTrees.map Prod.fst).Nodup := by decide
  have hperm := (List.reverse_perm mixedMessages).symm
  have hperm' := (List.reverse_perm mixedTrees).symm
  have hsame := formatCatalog_printTrees_perm .elements List.reverse
  exact ⟨hmessages, hperm, hsame.1 hmessages hperm, by decide +kernel, htrees, hperm',
    hsame.2 htrees hperm'⟩

end MessageFormat
