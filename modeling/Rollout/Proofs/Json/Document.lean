import Rollout.Proofs.Json.Spelling

namespace Rollout.Json

-- A document whose numbers are whole and keep their digits, and that nests at most so deep.
inductive Readable : Nat → Json → Prop where
  | null (depth : Nat) : Readable depth .null
  | bool (depth : Nat) (value : Bool) : Readable depth (.bool value)
  | whole (depth : Nat) {value : Int} (h : IsWhole value) : Readable depth (.number (.int value))
  | string (depth : Nat) (text : String) : Readable depth (.string text)
  | array (depth : Nat) {items : List Json} (h : ∀ item ∈ items, Readable depth item) :
      Readable (depth + 1) (.array items)
  | object (depth : Nat) {members : List (String × Json)}
      (h : ∀ member ∈ members, Readable depth member.2) : Readable (depth + 1) (.object members)

mutual

-- The tokens of a document's text.
def spelled : Json → List Token
  | .null => [.null]
  | .bool value => [.bool value]
  | .number value => [.number (some value)]
  | .string text => [.string (some text)]
  | .array [] => [.openBracket, .closeBracket]
  | .array (item :: rest) =>
    .openBracket :: (spelled item ++ (spelledItems rest ++ [.closeBracket]))
  | .object [] => [.openBrace, .closeBrace]
  | .object ((key, value) :: rest) =>
    .openBrace :: .string (some key) :: .colon :: (spelled value ++ (spelledMembers rest ++ [.closeBrace]))

def spelledItems : List Json → List Token
  | [] => []
  | item :: rest => .comma :: (spelled item ++ spelledItems rest)

def spelledMembers : List (String × Json) → List Token
  | [] => []
  | (key, value) :: rest =>
    .comma :: .string (some key) :: .colon :: (spelled value ++ spelledMembers rest)

end

-- The text of a document has these tokens, whatever has been read before it.
def Lexes (value : Json) : Prop :=
  ∀ (read : List Token) (rest : List Char), EndsNumeral rest →
    tokens? read (compactChars value ++ rest) = tokens? ((spelled value).reverse ++ read) rest

theorem endsNumeral_items (items : List Json) {rest : List Char} (hrest : EndsNumeral rest) :
    EndsNumeral (compactItems items ++ rest) := by
  cases items with
  | nil => exact hrest
  | cons item items =>
    rw [compactItems]
    exact .cons rfl _

theorem endsNumeral_members (members : List (String × Json)) {rest : List Char}
    (hrest : EndsNumeral rest) : EndsNumeral (compactMembers members ++ rest) := by
  cases members with
  | nil => exact hrest
  | cons member members =>
    rw [compactMembers]
    exact .cons rfl _

theorem tokens?_items {items : List Json} (h : ∀ item ∈ items, Lexes item) (read : List Token)
    {rest : List Char} (hrest : EndsNumeral rest) :
    tokens? read (compactItems items ++ rest) =
      tokens? ((spelledItems items).reverse ++ read) rest := by
  induction items generalizing read with
  | nil => rfl
  | cons item items ih =>
      obtain ⟨hitem, hitems⟩ := List.forall_mem_cons.mp h
      simp only [compactItems, spelledItems, List.cons_append, List.append_assoc, List.reverse_cons,
        List.reverse_append, List.nil_append]
      rw [tokens?, hitem _ _ (endsNumeral_items items hrest), ih hitems]

theorem tokens?_members {members : List (String × Json)} (h : ∀ member ∈ members, Lexes member.2)
    (read : List Token) {rest : List Char} (hrest : EndsNumeral rest) :
    tokens? read (compactMembers members ++ rest) =
      tokens? ((spelledMembers members).reverse ++ read) rest := by
  induction members generalizing read with
  | nil => rfl
  | cons member members ih =>
      obtain ⟨hmember, hmembers⟩ := List.forall_mem_cons.mp h
      simp only [compactMembers, spelledMembers, List.cons_append, List.append_assoc,
        List.reverse_cons, List.reverse_append, List.nil_append]
      rw [tokens?, tokens?_quoted, tokens?, hmember _ _ (endsNumeral_members members hrest),
        ih hmembers]

theorem lexes_array {items : List Json} (h : ∀ item ∈ items, Lexes item) : Lexes (.array items) := by
  intro read rest _
  cases items with
  | nil => simp [compactChars, spelled, tokens?]
  | cons item items =>
      obtain ⟨hitem, hitems⟩ := List.forall_mem_cons.mp h
      have hend : EndsNumeral (']' :: rest) := .cons rfl rest
      simp only [compactChars, spelled, List.cons_append, List.append_assoc, List.reverse_cons,
        List.reverse_append, List.nil_append, List.reverse_nil]
      rw [tokens?, hitem _ _ (endsNumeral_items items hend), tokens?_items hitems _ hend, tokens?]

theorem lexes_object {members : List (String × Json)} (h : ∀ member ∈ members, Lexes member.2) :
    Lexes (.object members) := by
  intro read rest _
  cases members with
  | nil => simp [compactChars, spelled, tokens?]
  | cons member members =>
      obtain ⟨hmember, hmembers⟩ := List.forall_mem_cons.mp h
      have hend : EndsNumeral ('\x7d' :: rest) := .cons rfl rest
      simp only [compactChars, spelled, List.cons_append, List.append_assoc, List.reverse_cons,
        List.reverse_append, List.nil_append, List.reverse_nil]
      rw [tokens?, tokens?_quoted, tokens?, hmember _ _ (endsNumeral_members members hend),
        tokens?_members hmembers _ hend, tokens?]

theorem Readable.lexes {depth : Nat} {value : Json} (h : Readable depth value) : Lexes value := by
  induction h with
  | null depth =>
      intro read rest _
      simp [compactChars, spelled, tokens?]
  | bool depth value =>
      intro read rest _
      cases value <;> simp [compactChars, spelled, tokens?]
  | whole depth hwhole =>
      intro read rest hrest
      exact tokens?_intText hwhole hrest read
  | string depth text =>
      intro read rest _
      exact tokens?_quoted read text rest
  | array depth _ ih => exact lexes_array ih
  | object depth _ ih => exact lexes_object ih

-- Tokens that lead a reader from one state to another.
def Leads (state : ReaderState) (tokens : List Token) (next : ReaderState) : Prop :=
  tokens.foldlM ReaderState.step state = some next

namespace Leads

theorem nil (state : ReaderState) : Leads state [] state := rfl

theorem cons {state middle next : ReaderState} {token : Token} {tokens : List Token}
    (h : state.step token = some middle) (hrest : Leads middle tokens next) :
    Leads state (token :: tokens) next := by
  rw [Leads, List.foldlM_cons, h]
  exact hrest

theorem append {state middle next : ReaderState} {tokens more : List Token}
    (h : Leads state tokens middle) (hrest : Leads middle more next) :
    Leads state (tokens ++ more) next := by
  rw [Leads, List.foldlM_append, h]
  exact hrest

end Leads

mutual

-- The draft of a document, in which everything denotes something.
def drafted : Json → Draft
  | .null => .null
  | .bool value => .bool value
  | .number value => .number (some value)
  | .string text => .string (some text)
  | .array items => .array (draftedItems items)
  | .object members => .object (draftedMembers members)

def draftedItems : List Json → List Draft
  | [] => []
  | item :: rest => drafted item :: draftedItems rest

def draftedMembers : List (String × Json) → List (Option String × Draft)
  | [] => []
  | (key, value) :: rest => (some key, drafted value) :: draftedMembers rest

end

-- The tokens of a document make up its draft, inside whatever is open around it.
def Parses (value : Json) : Prop :=
  ∀ frames : List Frame, Leads ⟨frames, .value⟩ (spelled value) (afterValue (drafted value) frames)

-- A first item is read like any other value, since no value begins with a closing bracket.
theorem leads_firstItem {value : Json} {frames : List Frame} {next : ReaderState}
    (h : Leads ⟨frames, .value⟩ (spelled value) next) :
    Leads ⟨frames, .firstItem⟩ (spelled value) next := by
  cases value with
  | null => exact h
  | bool value => exact h
  | number value => exact h
  | string text => exact h
  | array items => cases items <;> exact h
  | object members => cases members <;> exact h

theorem leads_items {items : List Json} (h : ∀ item ∈ items, Parses item) (read : List Draft)
    (outer : List Frame) :
    Leads ⟨.array read :: outer, .separator⟩ (spelledItems items)
      ⟨.array ((draftedItems items).reverse ++ read) :: outer, .separator⟩ := by
  induction items generalizing read with
  | nil => exact .nil _
  | cons item items ih =>
      obtain ⟨hitem, hitems⟩ := List.forall_mem_cons.mp h
      rw [spelledItems, draftedItems, List.reverse_cons, List.append_assoc]
      exact .cons rfl ((hitem (.array read :: outer)).append (ih hitems (drafted item :: read)))

theorem leads_members {members : List (String × Json)} (h : ∀ member ∈ members, Parses member.2)
    (read : List (Option String × Draft)) (key : Option String) (outer : List Frame) :
    ∃ last, Leads ⟨.object read key :: outer, .separator⟩ (spelledMembers members)
      ⟨.object ((draftedMembers members).reverse ++ read) last :: outer, .separator⟩ := by
  induction members generalizing read key with
  | nil => exact ⟨key, .nil _⟩
  | cons member members ih =>
      obtain ⟨hmember, hmembers⟩ := List.forall_mem_cons.mp h
      obtain ⟨name, value⟩ := member
      obtain ⟨last, hlast⟩ := ih hmembers ((some name, drafted value) :: read) (some name)
      have hread := hmember (.object read (some name) :: outer)
      refine ⟨last, ?_⟩
      rw [spelledMembers, draftedMembers, List.reverse_cons, List.append_assoc]
      exact .cons rfl (.cons rfl (.cons rfl (hread.append hlast)))

theorem parses_array {items : List Json} (h : ∀ item ∈ items, Parses item) :
    Parses (.array items) := by
  intro frames
  cases items with
  | nil => exact .cons rfl (.nil _)
  | cons item items =>
      obtain ⟨hitem, hitems⟩ := List.forall_mem_cons.mp h
      have hfirst := leads_firstItem (hitem (.array [] :: frames))
      have hrest := leads_items hitems [drafted item] frames
      have hclose : ReaderState.step
          ⟨.array ((draftedItems items).reverse ++ [drafted item]) :: frames, .separator⟩
          .closeBracket = some (afterValue (drafted (.array (item :: items))) frames) := by
        simp [ReaderState.step, drafted, draftedItems]
      exact .cons rfl (hfirst.append (hrest.append (.cons hclose (.nil _))))

theorem parses_object {members : List (String × Json)} (h : ∀ member ∈ members, Parses member.2) :
    Parses (.object members) := by
  intro frames
  cases members with
  | nil => exact .cons rfl (.cons rfl (.nil _))
  | cons member members =>
      obtain ⟨hmember, hmembers⟩ := List.forall_mem_cons.mp h
      obtain ⟨key, value⟩ := member
      have hfirst := hmember (.object [] (some key) :: frames)
      obtain ⟨last, hrest⟩ := leads_members hmembers [(some key, drafted value)] (some key) frames
      have hclose : ReaderState.step
          ⟨.object ((draftedMembers members).reverse ++ [(some key, drafted value)]) last :: frames,
            .separator⟩ .closeBrace =
          some (afterValue (drafted (.object ((key, value) :: members))) frames) := by
        simp [ReaderState.step, drafted, draftedMembers]
      exact .cons rfl (.cons rfl (.cons rfl
        (hfirst.append (hrest.append (.cons hclose (.nil _))))))

theorem Readable.parses {depth : Nat} {value : Json} (h : Readable depth value) : Parses value := by
  induction h with
  | null depth => exact fun frames => .nil _
  | bool depth value => exact fun frames => .nil _
  | whole depth hwhole => exact fun frames => .nil _
  | string depth text => exact fun frames => .nil _
  | array depth _ ih => exact parses_array ih
  | object depth _ ih => exact parses_object ih

theorem readItems?_drafted {room : Nat} {items : List Json}
    (h : ∀ item ∈ items, (drafted item).read? room .full = some item) (index : Nat) :
    Draft.readItems? room .full index (draftedItems items) = some items := by
  induction items generalizing index with
  | nil => rfl
  | cons item items ih =>
      obtain ⟨hitem, hitems⟩ := List.forall_mem_cons.mp h
      simp [draftedItems, Draft.readItems?, Shape.item, hitem, ih hitems]

theorem readMembers?_drafted {room : Nat} {members : List (String × Json)}
    (h : ∀ member ∈ members, (drafted member.2).read? room .full = some member.2) :
    Draft.readMembers? room .full (draftedMembers members) = some members := by
  induction members with
  | nil => rfl
  | cons member members ih =>
      obtain ⟨hmember, hmembers⟩ := List.forall_mem_cons.mp h
      simp [draftedMembers, Draft.readMembers?, Shape.member, hmember, ih hmembers]

-- With room for all that is nested in it, a draft is read as its document.
theorem Readable.read?_drafted {depth : Nat} {value : Json} (h : Readable depth value) :
    (drafted value).read? depth .full = some value := by
  induction h with
  | null depth => rfl
  | bool depth value => rfl
  | whole depth hwhole => rfl
  | string depth text => rfl
  | array depth _ ih =>
      rw [drafted, Draft.read?, if_neg depth.succ_ne_zero, Nat.add_sub_cancel,
        readItems?_drafted ih, Option.map_some]
  | object depth _ ih =>
      rw [drafted, Draft.read?, if_neg depth.succ_ne_zero, Nat.add_sub_cancel,
        readMembers?_drafted ih, Option.map_some]

theorem Readable.draft?_compact {depth : Nat} {value : Json} (h : Readable depth value) :
    draft? value.compact = some (drafted value) := by
  have htokens : tokens? [] value.compact.toList = some (spelled value) := by
    have hlexes := h.lexes [] [] (fun _ hc => nomatch hc)
    rw [List.append_nil] at hlexes
    rw [compact, String.toList_ofList, hlexes, tokens?]
    simp
  have hparses : Leads .start (spelled value) (afterValue (drafted value) []) := h.parses []
  unfold Leads at hparses
  simp only [draft?, htokens, Option.bind_eq_bind, Option.bind_some, ofTokens?, hparses]
  rfl

-- Reading the text of a document gives the document back.
theorem ofText?_compact {value : Json} (h : Readable maxDepth value) :
    ofText? value.compact = some value := by
  rw [ofText?, Shape.ofText?, h.draft?_compact, Option.bind_some, h.read?_drafted]

end Rollout.Json
