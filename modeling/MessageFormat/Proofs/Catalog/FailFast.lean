import Mathlib.Data.Finset.Card
import Mathlib.Data.List.Forall2
import MessageFormat.Catalog.Format
import MessageFormat.Proofs.Agree

/-!
# Runs that stop at the first failure

Formatting and printing go through their input in order. If every pair succeeds, the catalog holds
each id with what came of its last pair, and the events are one for each pair and one with the
number of ids. Otherwise the run ends with the error of the first pair that fails, whatever comes
after it, and the events are those of the pairs before and the warning, if the run has one.
-/

namespace MessageFormat

/-! ### Looking up in a catalog -/

/-- What a list of pairs holds for an id at its last occurrence. -/
def lastValue? {α : Type} (id : String) (pairs : List (String × α)) : Option α :=
  (pairs.reverse.find? fun p => p.1 = id).map Prod.snd

theorem lastValue?_cons {α : Type} (id : String) (p : String × α) (pairs : List (String × α)) :
    lastValue? id (p :: pairs) =
      (lastValue? id pairs).or (if p.1 = id then some p.2 else none) := by
  simp only [lastValue?, List.reverse_cons, List.find?_append]
  cases pairs.reverse.find? fun p => p.1 = id with
  | some q => rfl
  | none => by_cases hp : p.1 = id <;> simp [hp]

namespace Catalog

variable {α : Type}

theorem find?_insertSorted (id k : String) (value : α) (es : List (String × α)) :
    ((insertSorted id value es).find? fun e => e.1 = k) =
      if id = k then some (id, value) else es.find? fun e => e.1 = k := by
  induction es with
  | nil => by_cases hk : id = k <;> simp [insertSorted, hk]
  | cons e es ih =>
    rw [insertSorted]
    split
    · by_cases hk : id = k <;> simp [hk]
    · split
      · next heq => by_cases hk : id = k <;> simp [hk, ← heq]
      · next hne =>
        by_cases he : e.1 = k
        · have hk : id ≠ k := fun h => hne (h.trans he.symm)
          simp [he, hk]
        · simp [he, ih]

theorem get?_insert (c : Catalog α) (id k : String) (value : α) :
    (c.insert id value).get? k = if id = k then some value else c.get? k := by
  rw [get?, insert, find?_insertSorted]
  split
  · rfl
  · rfl

theorem mem_ids_iff {c : Catalog α} {id : String} : id ∈ c.ids ↔ c.get? id ≠ none := by
  rw [get?, ids, ne_eq, Option.map_eq_none_iff, List.find?_eq_none]
  simp

theorem nodup_ids (c : Catalog α) : c.ids.Nodup := by
  have hne : c.entries.Pairwise fun a b => a.1 ≠ b.1 := by
    apply c.sorted.imp
    intro a b hlt heq
    rw [heq] at hlt
    exact String.lt_irrefl b.1 hlt
  exact List.pairwise_map.2 hne

theorem size_eq_card (c : Catalog α) : c.size = c.ids.toFinset.card := by
  rw [List.toFinset_card_of_nodup c.nodup_ids, ids, List.length_map, size]

/-- The catalog after putting pairs into it one by one. -/
def insertAll (c : Catalog α) (pairs : List (String × α)) : Catalog α :=
  pairs.foldl (fun c p => c.insert p.1 p.2) c

theorem get?_insertAll (c : Catalog α) (pairs : List (String × α)) (id : String) :
    (c.insertAll pairs).get? id = (lastValue? id pairs).or (c.get? id) := by
  induction pairs generalizing c with
  | nil => rfl
  | cons p pairs ih =>
    rw [insertAll, List.foldl_cons, ← insertAll, ih, get?_insert, lastValue?_cons, Option.or_assoc]
    congr 1
    split <;> rfl

theorem mem_ids_insertAll_empty {pairs : List (String × α)} {id : String} :
    id ∈ (empty.insertAll pairs).ids ↔ id ∈ pairs.map Prod.fst := by
  rw [mem_ids_iff, get?_insertAll]
  simp [lastValue?, empty, get?]

end Catalog

/-! ### Events as they are logged -/

/-- A value that is logged with an event. -/
inductive FieldValue where
  | text (value : String)
  | count (value : Nat)
deriving DecidableEq, Repr

/-- An event with its level, its message and what is logged with it. -/
structure LogLine where
  level : Level
  message : String
  fields : List (String × FieldValue)
deriving DecidableEq, Repr

def Event.fields : Event → List (String × FieldValue)
  | .formatted id output | .printed id output => [("id", .text id), ("output", .text output)]
  | .failed id error => [("id", .text id), ("error", .text error.message)]
  | .formattedAll entries | .printedAll entries => [("entries", .count entries)]

def Event.line (e : Event) : LogLine :=
  ⟨e.level, e.message, e.fields⟩

/-- The id of the message that an error is about. -/
def CatalogError.id? : CatalogError → Option String
  | .unreadable _ => none
  | .unparsable id _ | .invalidTree id _ => some id

namespace Report

variable {α β : Type}

/-- Every pair on the left succeeds, and the pairs on the right are what comes of them. -/
def Makes (step : String → α → Report β) : List (String × α) → List (String × β) → Prop :=
  List.Forall₂ fun p e => e.1 = p.1 ∧ (step p.1 p.2).outcome = .ok e.2

/-- What can come of a run over pairs: it goes through all of them, or it stops at the first one
that fails. -/
inductive FailFast (step : String → α → Report β) (done : String → β → LogLine)
    (failure : String → CatalogError → List LogLine) (finish : Nat → LogLine)
    (pairs : List (String × α)) (report : Report (Catalog β)) : Prop where
  | completed {entries : List (String × β)} {catalog : Catalog β} (makes : Makes step pairs entries)
    (outcome : report.outcome = .ok catalog)
    (ids : ∀ id, id ∈ catalog.ids ↔ id ∈ pairs.map Prod.fst)
    (values : ∀ id, catalog.get? id = lastValue? id entries)
    (lines : report.events.map Event.line =
      entries.map (fun e => done e.1 e.2) ++ [finish (pairs.map Prod.fst).toFinset.card])
  | stopped {before after : List (String × α)} {id : String} {a : α}
    {entries : List (String × β)} {error : CatalogError}
    (split : pairs = before ++ (id, a) :: after) (makes : Makes step before entries)
    (fails : (step id a).outcome = .error error) (about : error.id? = some id)
    (outcome : report.outcome = .error error)
    (lines : report.events.map Event.line =
      entries.map (fun e => done e.1 e.2) ++ failure id error)

variable {step : String → α → Report β} {event : String → β → Event}

/-- What a step reports: one event if it succeeds, and if it fails nothing but an error with the
id. -/
def Logs (step : String → α → Report β) (event : String → β → Event) : Prop :=
  ∀ id a, (∃ b, step id a = ⟨.ok b, [event id b]⟩) ∨
    ∃ e, step id a = ⟨.error e, []⟩ ∧ e.id? = some id

theorem Logs.ok (hlogs : Logs step event) {id : String} {a : α} {b : β}
    (h : (step id a).outcome = .ok b) : step id a = ⟨.ok b, [event id b]⟩ := by
  rcases hlogs id a with ⟨b', hstep⟩ | ⟨e, hstep, -⟩
  · rw [hstep] at h
    cases h
    exact hstep
  · rw [hstep] at h
    cases h

theorem Logs.error (hlogs : Logs step event) {id : String} {a : α} {e : CatalogError}
    (h : (step id a).outcome = .error e) : step id a = ⟨.error e, []⟩ ∧ e.id? = some id := by
  rcases hlogs id a with ⟨b, hstep⟩ | ⟨e', hstep, habout⟩
  · rw [hstep] at h
    cases h
  · rw [hstep] at h
    cases h
    exact ⟨hstep, habout⟩

theorem makes_or_fails (step : String → α → Report β) (pairs : List (String × α)) :
    (∃ entries, Makes step pairs entries) ∨
      ∃ before id a after entries error, pairs = before ++ (id, a) :: after ∧
        Makes step before entries ∧ (step id a).outcome = .error error := by
  induction pairs with
  | nil => exact .inl ⟨[], .nil⟩
  | cons p pairs ih =>
    cases hp : (step p.1 p.2).outcome with
    | error error => exact .inr ⟨[], p.1, p.2, pairs, [], error, rfl, .nil, hp⟩
    | ok b =>
      rcases ih with ⟨entries, h⟩ | ⟨before, id, a, after, entries, error, rfl, h, hfails⟩
      · exact .inl ⟨(p.1, b) :: entries, .cons ⟨rfl, hp⟩ h⟩
      · exact .inr ⟨p :: before, id, a, after, (p.1, b) :: entries, error, rfl,
          .cons ⟨rfl, hp⟩ h, hfails⟩

theorem Makes.ids {pairs : List (String × α)} {entries : List (String × β)}
    (h : Makes step pairs entries) : entries.map Prod.fst = pairs.map Prod.fst := by
  induction h with
  | nil => rfl
  | cons hp h ih => rw [List.map_cons, List.map_cons, hp.1, ih]

/-- Pairs that succeed are put into the catalog, and the run goes on behind them. -/
theorem collect_append (hlogs : Logs step event) (failure : String → CatalogError → List Event)
    (finish : Nat → Event) {before : List (String × α)} {entries : List (String × β)}
    (h : Makes step before entries) (c : Catalog β) (pairs : List (String × α)) :
    collect step failure finish c (before ++ pairs) =
      ⟨(collect step failure finish (c.insertAll entries) pairs).outcome,
        entries.map (fun e => event e.1 e.2) ++
          (collect step failure finish (c.insertAll entries) pairs).events⟩ := by
  induction h generalizing c with
  | nil => rfl
  | @cons p e before entries hp h ih =>
    obtain ⟨id, a⟩ := p
    obtain ⟨_, b⟩ := e
    obtain ⟨rfl, hb⟩ := hp
    rw [List.cons_append, collect, hlogs.ok hb]
    dsimp only
    rw [ih]
    rfl

theorem failFast_collect (hlogs : Logs step event) (failure : String → CatalogError → List Event)
    (finish : Nat → Event) {done : String → β → LogLine}
    (hdone : ∀ id b, (event id b).line = done id b) (pairs : List (String × α)) :
    FailFast step done (fun id error => (failure id error).map Event.line)
      (fun n => (finish n).line) pairs (collect step failure finish Catalog.empty pairs) := by
  have hlines : ∀ entries : List (String × β),
      (entries.map fun e => event e.1 e.2).map Event.line = entries.map fun e => done e.1 e.2 := by
    intro entries
    rw [List.map_map]
    exact List.map_congr_left fun e _ => hdone e.1 e.2
  rcases makes_or_fails step pairs with
    ⟨entries, h⟩ | ⟨before, id, a, after, entries, error, rfl, h, hfails⟩
  · have hcollect := collect_append hlogs failure finish h Catalog.empty []
    rw [List.append_nil] at hcollect
    have houtcome : (collect step failure finish Catalog.empty pairs).outcome =
        .ok (Catalog.empty.insertAll entries) := by
      rw [hcollect]
      rfl
    have hids : ∀ id, id ∈ (Catalog.empty.insertAll entries).ids ↔ id ∈ pairs.map Prod.fst := by
      intro id
      rw [Catalog.mem_ids_insertAll_empty, h.ids]
    have hvalues : ∀ id, (Catalog.empty.insertAll entries).get? id = lastValue? id entries := by
      intro id
      rw [Catalog.get?_insertAll]
      exact Option.or_none
    have hsize : (Catalog.empty.insertAll entries).size = (pairs.map Prod.fst).toFinset.card := by
      rw [Catalog.size_eq_card]
      congr 1
      ext id
      rw [List.mem_toFinset, List.mem_toFinset, hids]
    refine .completed h houtcome hids hvalues ?_
    rw [hcollect, List.map_append, hlines, ← hsize]
    rfl
  · have hcollect := collect_append hlogs failure finish h Catalog.empty ((id, a) :: after)
    obtain ⟨hstep, habout⟩ := hlogs.error hfails
    rw [collect, hstep] at hcollect
    refine .stopped rfl h hfails habout ?_ ?_
    · rw [hcollect]
    · rw [hcollect, List.map_append, hlines]
      rfl

end Report

/-! ### What comes of one pair -/

/-- The message that a source stands for: a text is read by the parser, a tree as elements. -/
inductive MessageSource.Holds (parser : MessageParser) : MessageSource → Message → Prop
  | text {t : String} {message : Message} (h : parser t = .ok message) :
    Holds parser (.text t) message
  | tree {j : Json} {message : Message} (h : Message.ofJson j = .ok message) :
    Holds parser (.tree j) message

/-- An entry has the text of the hoisted message; what goes wrong is reported with the id. -/
theorem formatEntry_cases (parser : MessageParser) (hoist : Hoister) (id : String)
    (m : ExtractedMessage) :
    (∃ message, m.source.Holds parser message ∧ formatEntry parser hoist id m =
      ⟨.ok ⟨(hoist message).print, renderDescription m.description⟩,
        [.formatted id (hoist message).print]⟩) ∨
    (∃ t error, m.source = .text t ∧ parser t = .error error ∧
      formatEntry parser hoist id m = ⟨.error (.unparsable id error), []⟩) ∨
    ∃ j error, m.source = .tree j ∧ Message.ofJson j = .error error ∧
      formatEntry parser hoist id m = ⟨.error (.invalidTree id error), []⟩ := by
  obtain ⟨source, description⟩ := m
  cases source with
  | text t =>
    rw [formatEntry, MessageSource.toMessage]
    cases ht : parser t with
    | ok message => exact .inl ⟨message, .text ht, rfl⟩
    | error error => exact .inr (.inl ⟨t, error, rfl, ht, rfl⟩)
  | tree j =>
    rw [formatEntry, MessageSource.toMessage]
    cases hj : Message.ofJson j with
    | ok message => exact .inl ⟨message, .tree hj, rfl⟩
    | error error => exact .inr (.inr ⟨j, error, rfl, hj, rfl⟩)

theorem printTree_cases (id : String) (tree : Json) :
    (∃ message, Message.ofJson tree = .ok message ∧
      printTree id tree = ⟨.ok message.print, [.printed id message.print]⟩) ∨
    ∃ error, Message.ofJson tree = .error error ∧
      printTree id tree = ⟨.error (.invalidTree id error), []⟩ := by
  rw [printTree]
  cases htree : Message.ofJson tree with
  | ok message => exact .inl ⟨message, rfl, rfl⟩
  | error error => exact .inr ⟨error, rfl, rfl⟩

theorem logs_formatEntry (parser : MessageParser) (hoist : Hoister) :
    Report.Logs (formatEntry parser hoist) fun id entry => .formatted id entry.message := by
  intro id m
  rcases formatEntry_cases parser hoist id m with
    ⟨message, -, heq⟩ | ⟨t, error, -, -, heq⟩ | ⟨j, error, -, -, heq⟩
  · exact .inl ⟨_, heq⟩
  · exact .inr ⟨_, heq, rfl⟩
  · exact .inr ⟨_, heq, rfl⟩

theorem logs_printTree : Report.Logs printTree .printed := by
  intro id tree
  rcases printTree_cases id tree with ⟨message, -, heq⟩ | ⟨error, -, heq⟩
  · exact .inl ⟨_, heq⟩
  · exact .inr ⟨_, heq, rfl⟩

/-- Formatting and printing end with the whole catalog or with the first error, and their events
are exactly those of what was done until then. -/
theorem formatCatalog_printTrees_failFast (parser : MessageParser) (hoist : Hoister) :
    (∀ messages : List (String × ExtractedMessage), Report.FailFast (formatEntry parser hoist)
      (fun id entry => ⟨.debug, "formatted message",
        [("id", .text id), ("output", .text entry.message)]⟩)
      (fun id error => [⟨.warn, "failed to format message",
        [("id", .text id), ("error", .text error.message)]⟩])
      (fun n => ⟨.info, "formatted catalog", [("entries", .count n)]⟩)
      messages (formatCatalog parser hoist messages)) ∧
    ∀ trees : List (String × Json), Report.FailFast printTree
      (fun id text => ⟨.debug, "printed message", [("id", .text id), ("output", .text text)]⟩)
      (fun _ _ => [])
      (fun n => ⟨.info, "printed compiled messages", [("entries", .count n)]⟩)
      trees (printTrees trees) := by
  constructor
  · intro messages
    exact Report.failFast_collect (logs_formatEntry parser hoist)
      (fun id error => [.failed id error]) .formattedAll (fun id entry => rfl) messages
  · intro trees
    exact Report.failFast_collect logs_printTree (fun id error => []) .printedAll
      (fun id text => rfl) trees

end MessageFormat
