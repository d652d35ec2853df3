import Rollout.Feedstock.Document
import Rollout.Proofs.Feedstock
import Rollout.Proofs.Json.Replaced

namespace Rollout

theorem modify_append_cons {α : Type} (front back : List α) (a : α) (change : α → α) :
    (front ++ a :: back).modify front.length change = front ++ change a :: back := by
  rw [List.modify_eq_take_cons_drop (by simp)]
  simp

namespace Json

theorem Replaced.ne_null {fields : List (List String)} {keys : List String}
    {old new value changed : Json} (h : Replaced fields keys old new value changed) :
    value ≠ .null ∧ changed ≠ .null := by
  cases h <;> exact ⟨nofun, nofun⟩

theorem nullable?_of_ne_null {α : Type} {decode : Json → Option α} {value : Json}
    (h : value ≠ .null) :
    Json.nullable? decode value = (decode value).map some := by
  cases value with
  | null => exact absurd rfl h
  | _ => rfl

end Json

namespace Hosting

-- The fields of hosting data, each of which takes any value.
inductive Field where
  | state
  | createdAt
  | url

def Field.keys : Field → List String
  | .state => ["state"]
  | .createdAt => ["created_at"]
  | .url => ["html_url", "url"]

-- Hosting data with one field as another value gives it.
def put (hosting : Hosting) (value : Json) : Field → Hosting
  | .state => { hosting with state := PullState.ofJson value.canonical }
  | .createdAt => { hosting with createdAt := text? value }
  | .url => { hosting with url := text? value }

theorem disjoint_fields : fields.Pairwise List.Disjoint := by
  simp [fields]

theorem ofJson?_replaced {field : Field} {old new value changed : Json} {hosting : Hosting}
    (h : Json.Replaced fields field.keys old new value changed) (hread : ofJson? value = some hosting) :
    ofJson? changed = some (hosting.put new field) := by
  obtain ⟨given, hgiven, hfields⟩ := Option.bind_eq_some_iff.mp hread
  have hkeys : field.keys ∈ fields := by cases field <;> decide
  have hchanged := (Json.record?_replaced hkeys disjoint_fields h hgiven).2
  split at hfields
  · cases Option.some.inj hfields
    rw [ofJson?, hchanged]
    cases field <;> rfl
  · cases hfields

end Hosting

namespace Attempt

theorem disjoint_fields : fields.Pairwise List.Disjoint := by
  simp [fields]

theorem ofJson?_replaced {old new value changed : Json} {attempt : Attempt} {change : Hosting → Hosting}
    (hnull : old ≠ .null ∧ new ≠ .null)
    (hchange : ∀ hosting, Hosting.ofJson? old = some hosting → Hosting.ofJson? new = some (change hosting))
    (h : Json.Replaced fields ["PR"] old new value changed) (hread : ofJson? value = some attempt) :
    attempt.hosting.isSome = true ∧
      ofJson? changed = some (attempt.rehosted (Option.map change)) := by
  obtain ⟨given, hgiven, hfields⟩ := Option.bind_eq_some_iff.mp hread
  obtain ⟨hold, hchanged⟩ := Json.record?_replaced (by decide) disjoint_fields h hgiven
  split at hfields
  · rename_i data keys hosting
    obtain ⟨names, hnames, hfields⟩ := Option.bind_eq_some_iff.mp hfields
    obtain ⟨known, hknown, hfields⟩ := Option.bind_eq_some_iff.mp hfields
    cases Option.some.inj hfields
    obtain rfl : hosting = some old := Option.some.inj hold
    rw [Json.orElse?, Json.nullable?_of_ne_null hnull.1] at hknown
    obtain ⟨found, hfound, rfl⟩ := Option.map_eq_some_iff.mp hknown
    have hnew : Json.orElse? none (Json.nullable? Hosting.ofJson?) (some new) =
        some (some (change found)) := by
      rw [Json.orElse?, Json.nullable?_of_ne_null hnull.2, hchange found hfound, Option.map_some]
    refine ⟨rfl, ?_⟩
    have hgiven' : [some data, keys, some old].set (fields.idxOf ["PR"]) (some new) =
      [some data, keys, some new] := rfl
    rw [ofJson?, hchanged, hgiven']
    simp [hnames, hnew]
    rfl
  · cases hfields

end Attempt

namespace Feedstock

-- The places of a feedstock's document that take any value.
inductive Loose where
  | archived
  | parsingError
  | standing
  | hosting (index : Nat) (field : Hosting.Field)

-- A feedstock with one such place as another value gives it.
def put (feedstock : Feedstock) (value : Json) : Loose → Feedstock
  | .archived => { feedstock with archived := value.canonical.truthy }
  | .parsingError => { feedstock with parsingError := value.canonical.truthy }
  | .standing => { feedstock with standing := Standing.ofJson value.canonical }
  | .hosting index field =>
    feedstock.rehosted index (Option.map fun hosting => hosting.put value field)

def knownFields : List (List String) := knownKeys.map fun key => [key]

-- A feedstock's document before and after the value at such a place is replaced.
inductive Replaced (new : Json) : Loose → Json → Json → Prop where
  | archived {old value changed : Json}
      (h : Json.Replaced knownFields ["archived"] old new value changed) :
      Replaced new .archived value changed
  | parsingError {old value changed : Json}
      (h : Json.Replaced knownFields ["parsing_error"] old new value changed) :
      Replaced new .parsingError value changed
  | standing {old past changedPast value changed : Json}
      (hpast : Json.Replaced historyFields ["bad"] old new past changedPast)
      (h : Json.Replaced knownFields ["pr_info"] past changedPast value changed) :
      Replaced new .standing value changed
  | hosting {field : Hosting.Field} {before after : List Json}
      {old hosting changedHosting attempt changedAttempt past changedPast value changed : Json}
      (hhosting : Json.Replaced Hosting.fields field.keys old new hosting changedHosting)
      (hattempt : Json.Replaced Attempt.fields ["PR"] hosting changedHosting attempt changedAttempt)
      (hpast : Json.Replaced historyFields ["PRed"] (.array (before ++ attempt :: after))
        (.array (before ++ changedAttempt :: after)) past changedPast)
      (h : Json.Replaced knownFields ["pr_info"] past changedPast value changed) :
      Replaced new (.hosting before.length field) value changed

theorem disjoint_historyFields : historyFields.Pairwise List.Disjoint := by
  simp [historyFields]

theorem disjoint_knownFields : knownFields.Pairwise List.Disjoint := by
  simp [knownFields, knownKeys]

theorem history?_eq_some_iff (value : Json) (past : Standing × List Attempt) :
    history? value = some past ↔ ∃ standing attempts,
      value.record? historyFields = some [standing, attempts] ∧
      (standing.elim .good fun value => Standing.ofJson value.canonical) = past.1 ∧
      Json.orElse? [] (Json.list? Attempt.ofJson?) attempts = some past.2 := by
  constructor
  · intro h
    obtain ⟨given, hgiven, hfields⟩ := Option.bind_eq_some_iff.mp h
    split at hfields
    · rename_i standing attempts
      obtain ⟨records, hrecords, hfields⟩ := Option.bind_eq_some_iff.mp hfields
      cases Option.some.inj hfields
      refine ⟨standing, attempts, hgiven, ?_, hrecords⟩
      cases standing <;> rfl
    · cases hfields
  · rintro ⟨standing, attempts, hgiven, hstanding, hrecords⟩
    rw [history?, hgiven]
    cases standing <;> simp_all

-- What the fields of a feedstock's document that have a meaning of their own say about it.
inductive Told : List (Option Json) → Feedstock → Prop where
  | intro {name feedstockName branch archived parsingError requirements history config outputs
        rendered : Option Json} {feedstock : Feedstock}
      (hname : Json.orElse? "" Json.string? name = some feedstock.name)
      (hfeedstockName : Json.orElse? "" Json.string? feedstockName = some feedstock.feedstockName)
      (hbranch : Json.orElse? defaultBranch Json.string? branch = some feedstock.branch)
      (harchived : truthyOrFalse archived = feedstock.archived)
      (hparsingError : truthyOrFalse parsingError = feedstock.parsingError)
      (hrequirements :
        Json.orElse? .empty Requirements.ofJson? requirements = some feedstock.requirements)
      (hhistory :
        Json.orElse? (.good, []) history? history = some (feedstock.standing, feedstock.attempts))
      (hconfig : canonicalOrNull config = feedstock.config)
      (houtputs : Json.orElse? ∅ Json.nameSet? outputs = some feedstock.outputs)
      (hrendered : canonicalOrNull rendered = feedstock.rendered) :
      Told [name, feedstockName, branch, archived, parsingError, requirements, history, config,
        outputs, rendered] feedstock

theorem ofJson?_eq_some_iff (members : List (String × Json)) (feedstock : Feedstock) :
    ofJson? (.object members) = some feedstock ↔
      ∃ given, (Json.object members).record? knownFields = some given ∧ Told given feedstock ∧
        extraMembers members = feedstock.extra := by
  constructor
  · intro h
    obtain ⟨given, hgiven, hfields⟩ := Option.bind_eq_some_iff.mp h
    split at hfields
    · obtain ⟨past, hpast, hfields⟩ := Option.bind_eq_some_iff.mp hfields
      simp only [Option.bind_eq_bind, Option.bind_eq_some_iff, Option.pure_def,
        Option.some.injEq] at hfields
      obtain ⟨_, hname, _, hfeedstockName, _, hbranch, _, hrequirements, _, houtputs, rfl⟩ := hfields
      exact ⟨_, hgiven,
        .intro hname hfeedstockName hbranch rfl rfl hrequirements hpast rfl houtputs rfl, rfl⟩
    · cases hfields
  · rintro ⟨given, hgiven, htold, hextra⟩
    obtain ⟨hname, hfeedstockName, hbranch, harchived, hparsing, hrequirements, hhistory, hconfig,
      houtputs, hrendered⟩ := htold
    rw [knownFields] at hgiven
    simp only [ofJson?, hgiven, Option.bind_eq_bind, Option.bind_some, hname, hfeedstockName, hbranch,
      harchived, hparsing, hrequirements, hhistory, hconfig, houtputs, hrendered, hextra]
    rfl

-- A field that has a meaning of its own is kept nowhere else, so replacing its value moves only it.
theorem told_of_replaced {key : String} {old new value changed : Json} {feedstock : Feedstock}
    (hkey : key ∈ knownKeys) (h : Json.Replaced knownFields [key] old new value changed)
    (hread : ofJson? value = some feedstock) :
    ∃ given, Told given feedstock ∧ given[knownFields.idxOf [key]]? = some (some old) ∧
      ∀ other, other.extra = feedstock.extra →
        Told (given.set (knownFields.idxOf [key]) (some new)) other → ofJson? changed = some other := by
  have hfield : [key] ∈ knownFields := List.mem_map_of_mem hkey
  cases h with
  | item hplace => cases hread
  | @member before after same hsame =>
      obtain rfl := List.mem_singleton.mp hsame
      obtain ⟨given, hgiven, htold, hextra⟩ := (ofJson?_eq_some_iff _ feedstock).mp hread
      obtain ⟨hold, hchanged⟩ :=
        Json.record?_replaced hfield disjoint_knownFields (.member hsame) hgiven
      refine ⟨given, htold, hold, fun other hother hnew => ?_⟩
      refine (ofJson?_eq_some_iff _ other).mpr ⟨_, hchanged, hnew, ?_⟩
      rw [hother, ← hextra, extraMembers, extraMembers]
      simp [List.filter_append, hkey]

theorem ofJson?_replaced_history {old new value changed : Json} {feedstock : Feedstock}
    (h : Json.Replaced knownFields ["pr_info"] old new value changed)
    (hread : ofJson? value = some feedstock) :
    history? old = some (feedstock.standing, feedstock.attempts) ∧
      ∀ standing attempts, history? new = some (standing, attempts) →
        ofJson? changed = some { feedstock with standing := standing, attempts := attempts } := by
  obtain ⟨given, htold, hold, hnew⟩ := told_of_replaced (by decide) h hread
  obtain ⟨hname, hfeedstockName, hbranch, harchived, hparsing, hrequirements, hhistory, hconfig,
    houtputs, hrendered⟩ := htold
  obtain rfl := Option.some.inj hold
  exact ⟨hhistory, fun standing attempts hpast => hnew _ rfl
    (.intro hname hfeedstockName hbranch harchived hparsing hrequirements hpast hconfig houtputs
      hrendered)⟩

-- The record whose hosting data is looked into was read with some, and is read with the rest of it
-- as it was.
theorem ofJson?_replaced_hosting {field : Hosting.Field} {before after : List Json}
    {old new hosting changedHosting attempt changedAttempt past changedPast value changed : Json}
    {feedstock : Feedstock}
    (hhosting : Json.Replaced Hosting.fields field.keys old new hosting changedHosting)
    (hattempt : Json.Replaced Attempt.fields ["PR"] hosting changedHosting attempt changedAttempt)
    (hpast : Json.Replaced historyFields ["PRed"] (.array (before ++ attempt :: after))
      (.array (before ++ changedAttempt :: after)) past changedPast)
    (h : Json.Replaced knownFields ["pr_info"] past changedPast value changed)
    (hread : ofJson? value = some feedstock) :
    (∃ record, feedstock.attempts[before.length]? = some record ∧ record.hosting.isSome = true) ∧
      ofJson? changed = some (feedstock.put new (.hosting before.length field)) := by
  obtain ⟨hold, hnew⟩ := ofJson?_replaced_history h hread
  obtain ⟨standing, attempts, hgiven, hstanding, hattempts⟩ := (history?_eq_some_iff _ _).mp hold
  obtain ⟨hlist, hchanged⟩ := Json.record?_replaced (by decide) disjoint_historyFields hpast hgiven
  obtain rfl := Option.some.inj hlist
  have hrecord : ∀ record, Attempt.ofJson? attempt = some record → record.hosting.isSome = true ∧
      Attempt.ofJson? changedAttempt =
        some (record.rehosted (Option.map fun hosting => hosting.put new field)) := fun _ =>
    Attempt.ofJson?_replaced hhosting.ne_null (fun _ => Hosting.ofJson?_replaced hhosting) hattempt
  obtain ⟨front, record, back, hsplit, hlength, hat, -, hitems⟩ :=
    Json.exists_of_mapM_append_cons hattempts
  replace hsplit : feedstock.attempts = front ++ record :: back := hsplit
  have hmodify := modify_append_cons front back record fun attempt =>
    attempt.rehosted (Option.map fun hosting => hosting.put new field)
  rw [hlength, ← hsplit] at hmodify
  refine ⟨⟨record, ?_, (hrecord record hat).1⟩, ?_⟩
  · rw [hsplit, ← hlength, List.getElem?_append_right (Nat.le_refl _), Nat.sub_self,
      List.getElem?_cons_zero]
  · refine hnew _ _ ((history?_eq_some_iff _ _).mpr ⟨standing, _, hchanged, hstanding, ?_⟩)
    exact (hitems _ _ (hrecord record hat).2).trans (congrArg some hmodify.symm)

-- Whatever takes the place of such a value, the feedstock can still be read, and nothing else of it
-- has changed.
theorem ofJson?_replaced {place : Loose} {new value changed : Json} {feedstock : Feedstock}
    (h : Replaced new place value changed) (hread : ofJson? value = some feedstock) :
    ofJson? changed = some (feedstock.put new place) := by
  cases h with
  | archived h =>
      obtain ⟨given, htold, -, hnew⟩ := told_of_replaced (by decide) h hread
      obtain ⟨hname, hfeedstockName, hbranch, -, hparsing, hrequirements, hhistory, hconfig, houtputs,
        hrendered⟩ := htold
      exact hnew (feedstock.put new .archived) rfl (.intro hname hfeedstockName hbranch rfl hparsing
        hrequirements hhistory hconfig houtputs hrendered)
  | parsingError h =>
      obtain ⟨given, htold, -, hnew⟩ := told_of_replaced (by decide) h hread
      obtain ⟨hname, hfeedstockName, hbranch, harchived, -, hrequirements, hhistory, hconfig, houtputs,
        hrendered⟩ := htold
      exact hnew (feedstock.put new .parsingError) rfl (.intro hname hfeedstockName hbranch harchived
        rfl hrequirements hhistory hconfig houtputs hrendered)
  | standing hpast h =>
      obtain ⟨hold, hnew⟩ := ofJson?_replaced_history h hread
      obtain ⟨standing, attempts, hgiven, -, hattempts⟩ := (history?_eq_some_iff _ _).mp hold
      obtain ⟨-, hchanged⟩ := Json.record?_replaced (by decide) disjoint_historyFields hpast hgiven
      exact hnew _ _ ((history?_eq_some_iff _ _).mpr ⟨some new, attempts, hchanged, rfl, hattempts⟩)
  | hosting hhosting hattempt hpast h =>
      exact (ofJson?_replaced_hosting hhosting hattempt hpast h hread).2

theorem exists_record_of_replaced {index : Nat} {field : Hosting.Field} {new value changed : Json}
    {feedstock : Feedstock} (h : Replaced new (.hosting index field) value changed)
    (hread : ofJson? value = some feedstock) :
    ∃ (record : Attempt) (hosting : Hosting),
      (feedstock.put new (.hosting index field)).attempts[index]? = some record ∧
        record.hosting = some (hosting.put new field) := by
  cases h with
  | hosting hhosting hattempt hpast h =>
      obtain ⟨⟨record, hindex, hsome⟩, -⟩ := ofJson?_replaced_hosting hhosting hattempt hpast h hread
      obtain ⟨hosting, hfound⟩ := Option.isSome_iff_exists.mp hsome
      refine ⟨record.rehosted (Option.map fun hosting => hosting.put new field), hosting, ?_, ?_⟩
      · simp [put, rehosted, hindex]
      · rw [Attempt.rehosted, hfound, Option.map_some]

end Feedstock

namespace PullState

-- The values that say of a pull request that it is closed or merged.
def settledForms : List Json :=
  [.string "closed", .string "merged", .object [("closed", .null)], .object [("merged", .null)]]

theorem ofName_settled_iff (name : String) :
    ofName name = .closed ∨ ofName name = .merged ↔ name = "closed" ∨ name = "merged" := by
  unfold ofName
  split <;> simp_all

theorem ofJson_settled_iff (value : Json) :
    ofJson value = some .closed ∨ ofJson value = some .merged ↔ value ∈ settledForms := by
  unfold ofJson
  split
  · simp [settledForms]
  · simp [settledForms, ofName_settled_iff]
  · simp [settledForms, ofName_settled_iff]
  · simp_all [settledForms]

end PullState

namespace Attempt

variable {attempt : Attempt} {hosting : Hosting}

-- A state that is not clearly settled counts as open.
theorem isOpen_of_state (value : Json) (h : attempt.hosting = some (hosting.put value .state)) :
    attempt.isOpen = true ↔ value.canonical ∉ PullState.settledForms := by
  have hstate : attempt.hosting.bind Hosting.state = PullState.ofJson value.canonical := by
    rw [h]
    rfl
  rw [← PullState.ofJson_settled_iff, isOpen, hstate]
  split <;> simp_all

-- A creation time is known only from a text that can be read as one.
theorem createdAt?_eq_none_iff (value : Json)
    (h : attempt.hosting = some (hosting.put value .createdAt)) :
    attempt.createdAt? = none ↔ ∀ text, value = .string text → Instant.ofText? text = none := by
  rw [createdAt?, h]
  cases value <;> simp [Hosting.put, Hosting.text?]

end Attempt

end Rollout
