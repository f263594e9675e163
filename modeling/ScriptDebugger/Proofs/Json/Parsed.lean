import ScriptDebugger.Proofs.Json.Doubles
import ScriptDebugger.Proofs.Json.ReadBack
/-!
# What a text yields

A document that comes out of a text is no deeper than the reader allows, and its numbers are what
numbers in a text are read as. The reader keeps both true of everything on its stack. Canonical form
takes neither away, so the text of a document that was read can be read again, and once more inside
as many arrays and objects as there is room for. In canonical form no object has two members with
one key.

## Main results

* `Progress.isSound_step?`, `Progress.isSound_steps?` — what a token, and a run of them, preserves.
* `standsAt_of_parse?`, `standsAt_of_read?` — the depth and the numbers of a document that was read.
* `keysDistinct_canonical` — the keys of a document in canonical form.
* `StandsAt.exists_reread` — such a document can be read again.
-/

namespace ScriptDebugger.Json

/-! ## Tokens -/

/-- Whether a token is none of a number without some property. -/
def Token.IsSound (P : Number → Prop) : Token → Prop
  | .number n => P n
  | _ => True

namespace Token

/-- Whether the numbers among some tokens have a property. -/
def AllSound (P : Number → Prop) (tokens : List Token) : Prop := ∀ token ∈ tokens, token.IsSound P

theorem allSound_nil {P : Number → Prop} : AllSound P [] := List.forall_mem_nil _

theorem allSound_cons {P : Number → Prop} {token : Token} {tokens : List Token} :
    AllSound P (token :: tokens) ↔ token.IsSound P ∧ AllSound P tokens := List.forall_mem_cons

theorem isSound_ofWord? {P : Number → Prop} {read : List Char} {token : Token}
    (h : ofWord? read = some token) : token.IsSound P := by
  unfold ofWord? at h
  split at h
  · exact Option.some.inj h ▸ trivial
  · exact Option.some.inj h ▸ trivial
  · exact Option.some.inj h ▸ trivial
  · cases h

theorem isSound_ofNumber? {read : List Char} {token : Token} (h : ofNumber? read = some token) :
    token.IsSound Number.IsFinite := by
  obtain ⟨n, hn, rfl⟩ := Option.map_eq_some_iff.1 h
  exact Number.isFinite_of_read? hn

theorem allSound_start? {P : Number → Prop} {c : Char} {tokens : List Token} {next : Reading}
    (h : start? c = some (tokens, next)) : AllSound P tokens := by
  have hsingle {token : Token} (hsound : token.IsSound P) : AllSound P [token] :=
    allSound_cons.2 ⟨hsound, allSound_nil⟩
  unfold start? at h
  repeat' split at h
  all_goals cases h
  all_goals first | exact allSound_nil | exact hsingle trivial

/-- A token that is completed by a character between two tokens. -/
theorem allSound_complete {P : Number → Prop} {token? : Option Token} {c : Char}
    {tokens : List Token} {next : Reading} (htoken : ∀ token ∈ token?, token.IsSound P)
    (h : (token?.bind fun token =>
      (start? c).bind fun (tokens, next) => some (token :: tokens, next)) = some (tokens, next)) :
    AllSound P tokens := by
  obtain ⟨token, hsome, hrest⟩ := Option.bind_eq_some_iff.1 h
  obtain ⟨⟨others, reading⟩, hstart, heq⟩ := Option.bind_eq_some_iff.1 hrest
  cases heq
  exact allSound_cons.2 ⟨htoken token hsome, allSound_start? hstart⟩

/-- One character completes tokens whose numbers are what texts yield. -/
theorem allSound_advance? {reading next : Reading} {c : Char} {tokens : List Token}
    (h : advance? reading c = some (tokens, next)) : AllSound Number.IsFinite tokens := by
  cases reading with
  | gap => exact allSound_start? h
  | word read =>
      rw [advance?] at h
      split at h
      · cases h
        exact allSound_nil
      · exact allSound_complete (fun token htoken => isSound_ofWord? htoken) h
  | number read =>
      rw [advance?] at h
      split at h
      · cases h
        exact allSound_nil
      · exact allSound_complete (fun token htoken => isSound_ofNumber? htoken) h
  | text read =>
      rw [advance?] at h
      repeat' split at h
      all_goals cases h
      · exact allSound_cons.2 ⟨trivial, allSound_nil⟩
      · exact allSound_nil
      · exact allSound_nil
  | escape read =>
      obtain ⟨reading, -, heq⟩ := Option.map_eq_some_iff.1 h
      cases heq
      exact allSound_nil
  | unit read high value owed =>
      obtain ⟨digit, -, hrest⟩ := Option.bind_eq_some_iff.1 h
      simp only at hrest
      split at hrest
      · obtain ⟨reading, -, heq⟩ := Option.map_eq_some_iff.1 hrest
        cases heq
        exact allSound_nil
      · cases hrest
        exact allSound_nil
  | secondHalf read high =>
      rw [advance?] at h
      split at h
      · cases h
        exact allSound_nil
      · cases h
  | secondHalfEscape read high =>
      rw [advance?] at h
      split at h
      · cases h
        exact allSound_nil
      · cases h

theorem allSound_finish? {reading : Reading} {tokens : List Token}
    (h : finish? reading = some tokens) : AllSound Number.IsFinite tokens := by
  cases reading with
  | gap =>
      cases h
      exact allSound_nil
  | word read =>
      obtain ⟨token, htoken, rfl⟩ := Option.map_eq_some_iff.1 h
      exact allSound_cons.2 ⟨isSound_ofWord? htoken, allSound_nil⟩
  | number read =>
      obtain ⟨token, htoken, rfl⟩ := Option.map_eq_some_iff.1 h
      exact allSound_cons.2 ⟨isSound_ofNumber? htoken, allSound_nil⟩
  | text | escape | unit | secondHalf | secondHalfEscape => cases h

/-- The numbers among the tokens of a text are integers of 64 bits and finite doubles. -/
theorem allSound_scanFrom? {reading : Reading} {cs : List Char} {tokens : List Token}
    (h : scanFrom? reading cs = some tokens) : AllSound Number.IsFinite tokens := by
  induction cs generalizing reading tokens with
  | nil => exact allSound_finish? h
  | cons c cs ih =>
      obtain ⟨⟨front, next⟩, hadvance, hrest⟩ := Option.bind_eq_some_iff.1 h
      obtain ⟨back, hback, heq⟩ := Option.bind_eq_some_iff.1 hrest
      cases heq
      exact List.forall_mem_append.2 ⟨allSound_advance? hadvance, ih hback⟩

end Token

/-! ## The reader -/

/-- A document that stands inside as many arrays and objects as `depth` says, is no deeper than the
reader allows, and whose numbers have a property. -/
structure StandsAt (P : Number → Prop) (depth : Nat) (j : Json) : Prop where
  depth : depth + nesting j ≤ Progress.depthLimit
  numbers : AllNumbers P j

section

variable {P : Number → Prop} {depth : Nat}

theorem standsAt_array {items : List Json} : StandsAt P depth (.array items) ↔
    depth < Progress.depthLimit ∧ ∀ j ∈ items, StandsAt P (depth + 1) j := by
  constructor
  · intro h
    have hdepth : depth + (nestingOfItems items + 1) ≤ Progress.depthLimit := h.depth
    have hitems : ∀ j ∈ items, nesting j ≤ nestingOfItems items :=
      nestingOfItems_le_iff.1 (Nat.le_refl _)
    refine ⟨by omega, fun j hj => ⟨?_, allNumbersOfItems_iff.1 h.numbers j hj⟩⟩
    have := hitems j hj
    omega
  · intro ⟨hroom, hitems⟩
    have hdepth : nestingOfItems items ≤ Progress.depthLimit - (depth + 1) :=
      nestingOfItems_le_iff.2 fun j hj => by
        have := (hitems j hj).depth
        omega
    refine ⟨?_, allNumbersOfItems_iff.2 fun j hj => (hitems j hj).numbers⟩
    rw [nesting]
    omega

theorem standsAt_object {members : List (String × Json)} : StandsAt P depth (.object members) ↔
    depth < Progress.depthLimit ∧ ∀ m ∈ members, StandsAt P (depth + 1) m.2 := by
  constructor
  · intro h
    have hdepth : depth + (nestingOfMembers members + 1) ≤ Progress.depthLimit := h.depth
    have hmembers : ∀ m ∈ members, nesting m.2 ≤ nestingOfMembers members :=
      nestingOfMembers_le_iff.1 (Nat.le_refl _)
    refine ⟨by omega, fun m hm => ⟨?_, allNumbersOfMembers_iff.1 h.numbers m hm⟩⟩
    have := hmembers m hm
    omega
  · intro ⟨hroom, hmembers⟩
    have hdepth : nestingOfMembers members ≤ Progress.depthLimit - (depth + 1) :=
      nestingOfMembers_le_iff.2 fun m hm => by
        have := (hmembers m hm).depth
        omega
    refine ⟨?_, allNumbersOfMembers_iff.2 fun m hm => (hmembers m hm).numbers⟩
    rw [nesting]
    omega

/-- Whether what an open array or object holds so far stands where it should. -/
def Open.IsSound (P : Number → Prop) (depth : Nat) : Open → Prop
  | .array items => ∀ j ∈ items, StandsAt P (depth + 1) j
  | .object members _ => ∀ m ∈ members, StandsAt P (depth + 1) m.2

/-- Whether no more arrays and objects are open than may be, and each of them is sound. -/
def StackIsSound (P : Number → Prop) : List Open → Prop
  | [] => True
  | o :: rest => rest.length < Progress.depthLimit ∧ o.IsSound P rest.length ∧ StackIsSound P rest

/-- Whether what the reader holds beside its stack stands where it should. -/
def Expecting.IsSound (P : Number → Prop) (depth : Nat) : Expecting → Prop
  | .value | .firstItem => True
  | .firstKey members | .key members | .colon members _ =>
    depth < Progress.depthLimit ∧ ∀ m ∈ members, StandsAt P (depth + 1) m.2
  | .after j => StandsAt P depth j

/-- Whether all that the reader holds is sound. -/
structure Progress.IsSound (P : Number → Prop) (p : Progress) : Prop where
  stack : StackIsSound P p.stack
  expecting : p.expecting.IsSound P p.stack.length

theorem StackIsSound.length_le {stack : List Open} (h : StackIsSound P stack) :
    stack.length ≤ Progress.depthLimit := by
  cases stack with
  | nil => exact Nat.zero_le _
  | cons o rest => exact h.1

namespace Progress

theorem enter?_eq_some {stack : List Open} {next : Expecting} {p : Progress}
    (h : enter? stack next depth = some p) : depth < depthLimit ∧ p = ⟨stack, next⟩ := by
  unfold enter? at h
  split at h
  · exact ⟨‹_›, (Option.some.inj h).symm⟩
  · cases h

/-- A token where a value is due. -/
theorem isSound_beginValue? {stack : List Open} {token : Token} {p : Progress}
    (hstack : StackIsSound P stack) (htoken : token.IsSound P)
    (h : beginValue? stack token = some p) : p.IsSound P := by
  have hlength := hstack.length_le
  cases token with
  | null => exact Option.some.inj h ▸ ⟨hstack, hlength, trivial⟩
  | bool b => exact Option.some.inj h ▸ ⟨hstack, hlength, trivial⟩
  | number n => exact Option.some.inj h ▸ ⟨hstack, hlength, htoken⟩
  | string s => exact Option.some.inj h ▸ ⟨hstack, hlength, trivial⟩
  | arrayStart =>
      obtain ⟨hroom, rfl⟩ := enter?_eq_some h
      exact ⟨⟨hroom, List.forall_mem_nil _, hstack⟩, trivial⟩
  | objectStart =>
      obtain ⟨hroom, rfl⟩ := enter?_eq_some h
      exact ⟨hstack, hroom, List.forall_mem_nil _⟩
  | arrayEnd | objectEnd | comma | colon => cases h

/-- A token after a value: the value goes into the array or object around it. -/
theorem isSound_afterValue? {stack : List Open} {value : Json} {token : Token} {p : Progress}
    (hstack : StackIsSound P stack) (hvalue : StandsAt P stack.length value)
    (h : afterValue? stack value token = some p) : p.IsSound P := by
  cases stack with
  | nil => cases h
  | cons o rest =>
      obtain ⟨hroom, hopen, hrest⟩ := hstack
      cases o with
      | array items =>
          have hitems : ∀ j ∈ value :: items, StandsAt P (rest.length + 1) j :=
            List.forall_mem_cons.2 ⟨hvalue, hopen⟩
          cases token with
          | comma => exact Option.some.inj h ▸ ⟨⟨hroom, hitems, hrest⟩, trivial⟩
          | arrayEnd =>
              refine Option.some.inj h ▸ ⟨hrest, standsAt_array.2 ⟨hroom, fun j hj => ?_⟩⟩
              exact hitems j (List.mem_reverse.1 hj)
          | _ => cases h
      | object members key =>
          have hmembers : ∀ m ∈ (key, value) :: members, StandsAt P (rest.length + 1) m.2 :=
            List.forall_mem_cons.2 ⟨hvalue, hopen⟩
          cases token with
          | comma => exact Option.some.inj h ▸ ⟨hrest, hroom, hmembers⟩
          | objectEnd =>
              refine Option.some.inj h ▸ ⟨hrest, standsAt_object.2 ⟨hroom, fun m hm => ?_⟩⟩
              exact hmembers m (List.mem_reverse.1 hm)
          | _ => cases h

/-- One token leaves all that the reader holds sound. -/
theorem isSound_step? {p next : Progress} {token : Token} (hp : p.IsSound P)
    (htoken : token.IsSound P) (h : step? p token = some next) : next.IsSound P := by
  obtain ⟨stack, expecting⟩ := p
  obtain ⟨hstack, hexpecting⟩ := hp
  cases expecting with
  | value => exact isSound_beginValue? hstack htoken h
  | firstItem =>
      cases token with
      | arrayEnd =>
          cases stack with
          | nil => cases h
          | cons o rest =>
              obtain rfl := Option.some.inj h
              exact ⟨hstack.2.2, standsAt_array.2 ⟨hstack.1, List.forall_mem_nil _⟩⟩
      | _ => exact isSound_beginValue? hstack htoken h
  | firstKey members =>
      cases token with
      | objectEnd =>
          obtain rfl := Option.some.inj h
          exact ⟨hstack, standsAt_object.2 ⟨hexpecting.1, List.forall_mem_nil _⟩⟩
      | string key => exact Option.some.inj h ▸ ⟨hstack, hexpecting⟩
      | _ => cases h
  | key members =>
      cases token with
      | string key => exact Option.some.inj h ▸ ⟨hstack, hexpecting⟩
      | _ => cases h
  | colon members key =>
      cases token with
      | colon =>
          obtain rfl := Option.some.inj h
          exact ⟨⟨hexpecting.1, hexpecting.2, hstack⟩, trivial⟩
      | _ => cases h
  | after value => exact isSound_afterValue? hstack hexpecting h

/-- A run of tokens leaves all that the reader holds sound. -/
theorem isSound_steps? {p last : Progress} {tokens : List Token} (hp : p.IsSound P)
    (htokens : Token.AllSound P tokens) (h : steps? p tokens = some last) : last.IsSound P := by
  induction tokens generalizing p with
  | nil => exact Option.some.inj h ▸ hp
  | cons token tokens ih =>
      obtain ⟨hfirst, hothers⟩ := Token.allSound_cons.1 htokens
      obtain ⟨next, hstep, hrest⟩ := Option.bind_eq_some_iff.1 h
      exact ih (isSound_step? hp hfirst hstep) hothers hrest

theorem standsAt_document? {p : Progress} {j : Json} (hp : p.IsSound P)
    (h : document? p = some j) : StandsAt P 0 j := by
  obtain ⟨stack, expecting⟩ := p
  unfold document? at h
  split at h
  · obtain rfl := Option.some.inj h
    rename_i hempty hafter
    cases hempty
    cases hafter
    exact hp.expecting
  · cases h

end Progress

end

/-- A document that a text writes is no deeper than the reader allows, and its numbers are integers
of 64 bits and finite doubles. -/
theorem standsAt_of_parse? {text : String} {j : Json} (h : parse? text = some j) :
    StandsAt Number.IsFinite 0 j := by
  obtain ⟨tokens, hscan, hdocument⟩ := Option.bind_eq_some_iff.1 h
  obtain ⟨last, hsteps, hlast⟩ := Option.bind_eq_some_iff.1 hdocument
  have hstart : Progress.IsSound Number.IsFinite ⟨[], .value⟩ := ⟨trivial, trivial⟩
  have htokens := Token.allSound_scanFrom? hscan
  exact Progress.standsAt_document? (Progress.isSound_steps? hstart htokens hsteps) hlast

/-! ## Canonical form -/

theorem mem_of_mem_insertMember {α : Type} {key : String} {value : α} {m : String × α}
    {members : List (String × α)} (h : m ∈ insertMember key value members) :
    m = (key, value) ∨ m ∈ members := by
  induction members with
  | nil => exact .inl (List.mem_singleton.1 h)
  | cons first rest ih =>
      unfold insertMember at h
      split at h
      · exact List.mem_cons.1 h
      · split at h
        · exact (List.mem_cons.1 h).imp_right (List.mem_cons_of_mem first)
        · cases List.mem_cons.1 h with
          | inl heq => exact .inr (heq ▸ List.mem_cons_self)
          | inr hmem => exact (ih hmem).imp_right (List.mem_cons_of_mem first)

/-- Sorting puts no members in. -/
theorem mem_of_mem_sortMembers {α : Type} {m : String × α} {members : List (String × α)}
    (h : m ∈ sortMembers members) : m ∈ members := by
  have hfold : ∀ (members sorted : List (String × α)),
      m ∈ members.foldl (fun sorted m => insertMember m.1 m.2 sorted) sorted →
        m ∈ sorted ∨ m ∈ members := by
    intro members
    induction members with
    | nil => exact fun sorted h => .inl h
    | cons first rest ih =>
        intro sorted h
        cases ih _ h with
        | inl hsorted =>
            cases mem_of_mem_insertMember hsorted with
            | inl heq => exact .inr (heq ▸ List.mem_cons_self)
            | inr hmem => exact .inl hmem
        | inr hmem => exact .inr (List.mem_cons_of_mem first hmem)
  exact (hfold members [] h).resolve_left List.not_mem_nil

section

variable {P : Number → Prop}

mutual

/-- Canonical form makes a document no deeper, and puts no numbers in. -/
theorem StandsAt.canonical {depth : Nat} (j : Json) (h : StandsAt P depth j) :
    StandsAt P depth j.canonical := by
  cases j with
  | null => exact h
  | bool b => exact h
  | number n => exact h
  | string s => exact h
  | array items =>
      obtain ⟨hroom, hitems⟩ := standsAt_array.1 h
      exact standsAt_array.2 ⟨hroom, standsAt_canonicalItems items hitems⟩
  | object members =>
      obtain ⟨hroom, hmembers⟩ := standsAt_object.1 h
      refine standsAt_object.2 ⟨hroom, fun m hm => ?_⟩
      exact standsAt_canonicalMembers members hmembers m (mem_of_mem_sortMembers hm)

theorem standsAt_canonicalItems {depth : Nat} (items : List Json)
    (h : ∀ j ∈ items, StandsAt P depth j) : ∀ j ∈ canonicalItems items, StandsAt P depth j := by
  match items with
  | [] => exact List.forall_mem_nil _
  | j :: rest =>
      obtain ⟨hj, hrest⟩ := List.forall_mem_cons.1 h
      exact List.forall_mem_cons.2 ⟨hj.canonical, standsAt_canonicalItems rest hrest⟩

theorem standsAt_canonicalMembers {depth : Nat} (members : List (String × Json))
    (h : ∀ m ∈ members, StandsAt P depth m.2) :
    ∀ m ∈ canonicalMembers members, StandsAt P depth m.2 := by
  match members with
  | [] => exact List.forall_mem_nil _
  | (key, j) :: rest =>
      obtain ⟨hj, hrest⟩ := List.forall_mem_cons.1 h
      exact List.forall_mem_cons.2 ⟨hj.canonical, standsAt_canonicalMembers rest hrest⟩

end

end

/-! ### Keys -/

mutual

/-- Whether no object in a document has two members with one key. -/
def KeysDistinct : Json → Prop
  | .null | .bool _ | .number _ | .string _ => True
  | .array items => KeysDistinctOfItems items
  | .object members => (members.map Prod.fst).Nodup ∧ KeysDistinctOfMembers members

/-- Whether no object in the items of an array has two members with one key. -/
def KeysDistinctOfItems : List Json → Prop
  | [] => True
  | j :: rest => KeysDistinct j ∧ KeysDistinctOfItems rest

/-- Whether no object in the members of an object has two members with one key. -/
def KeysDistinctOfMembers : List (String × Json) → Prop
  | [] => True
  | (_, j) :: rest => KeysDistinct j ∧ KeysDistinctOfMembers rest

end

theorem keysDistinctOfMembers_iff {members : List (String × Json)} :
    KeysDistinctOfMembers members ↔ ∀ m ∈ members, KeysDistinct m.2 := by
  induction members with
  | nil => exact iff_of_true trivial (List.forall_mem_nil _)
  | cons m members ih => rw [KeysDistinctOfMembers, ih, List.forall_mem_cons]

/-- The keys of the members rise. -/
def Rising {α : Type} (members : List (String × α)) : Prop :=
  members.Pairwise fun a b => a.1 < b.1

theorem Rising.insertMember {α : Type} {members : List (String × α)} (h : Rising members)
    (key : String) (value : α) : Rising (insertMember key value members) := by
  induction members with
  | nil => exact List.pairwise_singleton _ _
  | cons first rest ih =>
      obtain ⟨k, v⟩ := first
      obtain ⟨hfirst, hrest⟩ := List.pairwise_cons.1 h
      unfold Json.insertMember
      split
      · rename_i hless
        refine List.pairwise_cons.2 ⟨List.forall_mem_cons.2 ⟨hless, fun m hm => ?_⟩, h⟩
        exact String.lt_trans hless (hfirst m hm)
      · rename_i hless
        split
        · rename_i hsame
          subst hsame
          exact List.pairwise_cons.2 ⟨hfirst, hrest⟩
        · rename_i hne
          have hbehind : k < key := Std.lt_of_le_of_ne hless (Ne.symm hne)
          refine List.pairwise_cons.2 ⟨fun m hm => ?_, ih hrest⟩
          rcases mem_of_mem_insertMember hm with rfl | hm
          · exact hbehind
          · exact hfirst m hm

theorem rising_sortMembers {α : Type} (members : List (String × α)) :
    Rising (sortMembers members) := by
  have hfold : ∀ (members sorted : List (String × α)), Rising sorted →
      Rising (members.foldl (fun sorted m => insertMember m.1 m.2 sorted) sorted) := by
    intro members
    induction members with
    | nil => exact fun _ h => h
    | cons m rest ih => exact fun sorted h => ih _ (h.insertMember m.1 m.2)
  exact hfold members [] List.Pairwise.nil

/-- Rising keys are distinct. -/
theorem Rising.nodup_keys {α : Type} {members : List (String × α)} (h : Rising members) :
    (members.map Prod.fst).Nodup := by
  rw [List.Nodup, List.pairwise_map]
  refine h.imp fun hless hsame => ?_
  rw [hsame] at hless
  exact String.lt_irrefl _ hless

mutual

theorem keysDistinct_canonical (j : Json) : KeysDistinct j.canonical := by
  cases j with
  | null | bool | number | string => trivial
  | array items => exact keysDistinctOfItems_canonicalItems items
  | object members =>
      refine ⟨(rising_sortMembers _).nodup_keys, keysDistinctOfMembers_iff.2 fun m hm => ?_⟩
      exact keysDistinctOfMembers_iff.1 (keysDistinctOfMembers_canonicalMembers members) m
        (mem_of_mem_sortMembers hm)

theorem keysDistinctOfItems_canonicalItems (items : List Json) :
    KeysDistinctOfItems (canonicalItems items) := by
  match items with
  | [] => trivial
  | j :: rest => exact ⟨keysDistinct_canonical j, keysDistinctOfItems_canonicalItems rest⟩

theorem keysDistinctOfMembers_canonicalMembers (members : List (String × Json)) :
    KeysDistinctOfMembers (canonicalMembers members) := by
  match members with
  | [] => trivial
  | (_, j) :: rest => exact ⟨keysDistinct_canonical j, keysDistinctOfMembers_canonicalMembers rest⟩

end

/-! ### Documents that were read -/

/-- A document that was read from a text, in canonical form. -/
theorem standsAt_of_read? {text : String} {j : Json} (h : read? text = some j) :
    StandsAt Number.IsFinite 0 j := by
  obtain ⟨written, hparse, rfl⟩ := Option.map_eq_some_iff.1 h
  exact (standsAt_of_parse? hparse).canonical

/-- A document whose numbers are what texts yield can be read again. -/
theorem StandsAt.exists_reread {depth : Nat} {j : Json} (h : StandsAt Number.IsFinite depth j) :
    ∃ j', reread j = some j' := by
  have hread : RereadWhere Number.IsFinite False := by
    intro n hn
    obtain ⟨m, hm⟩ := Option.isSome_iff_exists.1 (Number.isSome_read?_text hn)
    exact ⟨m, hm, False.elim⟩
  obtain ⟨j', hj, -⟩ := Json.exists_reread hread j h.numbers
  exact ⟨j', hj⟩

end ScriptDebugger.Json
