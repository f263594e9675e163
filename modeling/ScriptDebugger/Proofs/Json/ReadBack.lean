import ScriptDebugger.Json.Parser
import ScriptDebugger.Proofs.Json.Tokens
/-!
# Reading back a written document

The text of a document is read as the document again, with each number as its text reads. The one
thing that can fail besides an unreadable number is the depth: the reader gives up where more than
127 arrays and objects are open. A document without doubles comes back as it was.

## Main results

* `ofTokens?_tokens` — the tokens of a document are read as the document, up to the depth limit.
* `parse?_text` — what the text of a document is read as, for every document.
* `parse?_text_of_fitsWord` — a document whose numbers are integers of 64 bits reads back.
-/

namespace ScriptDebugger.Json

/-! ## Depth -/

mutual

/-- How many arrays and objects lie inside one another at most. -/
def nesting : Json → Nat
  | .null | .bool _ | .number _ | .string _ => 0
  | .array items => nestingOfItems items + 1
  | .object members => nestingOfMembers members + 1

/-- The depth of the deepest item of an array. -/
def nestingOfItems : List Json → Nat
  | [] => 0
  | j :: rest => max (nesting j) (nestingOfItems rest)

/-- The depth of the deepest member of an object. -/
def nestingOfMembers : List (String × Json) → Nat
  | [] => 0
  | (_, j) :: rest => max (nesting j) (nestingOfMembers rest)

end

theorem nestingOfItems_le_iff {depth : Nat} {items : List Json} :
    nestingOfItems items ≤ depth ↔ ∀ j ∈ items, nesting j ≤ depth := by
  induction items with
  | nil => exact iff_of_true (Nat.zero_le depth) (List.forall_mem_nil _)
  | cons j items ih => rw [nestingOfItems, Nat.max_le, ih, List.forall_mem_cons]

theorem nestingOfMembers_le_iff {depth : Nat} {members : List (String × Json)} :
    nestingOfMembers members ≤ depth ↔ ∀ m ∈ members, nesting m.2 ≤ depth := by
  induction members with
  | nil => exact iff_of_true (Nat.zero_le depth) (List.forall_mem_nil _)
  | cons m members ih => rw [nestingOfMembers, Nat.max_le, ih, List.forall_mem_cons]

namespace Progress

/-- Where an item is due, an item of an array that is empty so far is read as any other. -/
theorem steps?_firstItem (stack : List Open) (j : Json) (more : List Token) :
    steps? ⟨stack, .firstItem⟩ (tokens j ++ more) = steps? ⟨stack, .value⟩ (tokens j ++ more) := by
  cases j <;> rfl

theorem tokensOfItems_eq (j : Json) (items : List Json) :
    ∃ others, tokensOfItems (j :: items) = tokens j ++ others := by
  cases items with
  | nil => exact ⟨[], (List.append_nil _).symm⟩
  | cons k items => exact ⟨_, tokensOfItems_cons j k items⟩

/-- Where a key is due, a key of an object that is empty so far is read as any other. -/
theorem steps?_firstKey (stack : List Open) (done : List (String × Json)) (m : String × Json)
    (members : List (String × Json)) (more : List Token) :
    steps? ⟨stack, .firstKey done⟩ (tokensOfMembers (m :: members) ++ more) =
      steps? ⟨stack, .key done⟩ (tokensOfMembers (m :: members) ++ more) := by
  cases members with
  | nil => rfl
  | cons m' members =>
      rw [tokensOfMembers_cons]
      rfl

/-- Reading goes on behind a value unless the value is too deep. -/
def within (depth : Nat) (next : Option Progress) : Option Progress :=
  if depth ≤ depthLimit then next else none

theorem within_within (a b : Nat) (next : Option Progress) :
    within a (within b next) = within (max a b) next := by
  unfold within
  by_cases ha : a ≤ depthLimit
  · rw [if_pos ha]
    by_cases hb : b ≤ depthLimit
    · rw [if_pos hb, if_pos (Nat.max_le.2 ⟨ha, hb⟩)]
    · rw [if_neg hb, if_neg fun h => hb (Nat.max_le.1 h).2]
  · rw [if_neg ha, if_neg fun h => ha (Nat.max_le.1 h).1]

mutual

/-- The tokens of a document are read as the document, unless it is too deep where it stands. -/
theorem steps?_tokens (j : Json) {stack : List Open} (hstack : stack.length ≤ depthLimit)
    (more : List Token) :
    steps? ⟨stack, .value⟩ (tokens j ++ more) =
      within (stack.length + nesting j) (steps? ⟨stack, .after j⟩ more) := by
  cases j with
  | null => exact (if_pos hstack).symm
  | bool b => exact (if_pos hstack).symm
  | number n => exact (if_pos hstack).symm
  | string s => exact (if_pos hstack).symm
  | array items =>
      show (enter? (.array [] :: stack) .firstItem stack.length).bind
        (fun next => steps? next (tokensOfItems items ++ [.arrayEnd] ++ more)) = _
      rw [List.append_assoc, List.singleton_append, enter?]
      by_cases hroom : stack.length < depthLimit
      · rw [if_pos hroom, Option.bind_some]
        cases items with
        | nil => exact (if_pos hroom).symm
        | cons k items =>
            have hitems :=
              steps?_tokensOfItems (k :: items) (List.cons_ne_nil k items) hroom [] more
            obtain ⟨others, hfirst⟩ := tokensOfItems_eq k items
            rw [hfirst, List.append_assoc] at hitems ⊢
            rw [steps?_firstItem, hitems, nesting, Nat.add_right_comm, Nat.add_assoc]
            rfl
      · rw [if_neg hroom, nesting]
        exact (if_neg (by omega)).symm
  | object members =>
      show (enter? stack (.firstKey []) stack.length).bind
        (fun next => steps? next (tokensOfMembers members ++ [.objectEnd] ++ more)) = _
      rw [List.append_assoc, List.singleton_append, enter?]
      by_cases hroom : stack.length < depthLimit
      · rw [if_pos hroom, Option.bind_some]
        cases members with
        | nil => exact (if_pos hroom).symm
        | cons m members =>
            have hmembers :=
              steps?_tokensOfMembers (m :: members) (List.cons_ne_nil m members) hroom [] more
            rw [steps?_firstKey, hmembers, nesting, Nat.add_right_comm, Nat.add_assoc]
            rfl
      · rw [if_neg hroom, nesting]
        exact (if_neg (by omega)).symm

theorem steps?_tokensOfItems (items : List Json) (hne : items ≠ []) {stack : List Open}
    (hstack : stack.length < depthLimit) (done : List Json) (more : List Token) :
    steps? ⟨.array done :: stack, .value⟩ (tokensOfItems items ++ .arrayEnd :: more) =
      within (stack.length + 1 + nestingOfItems items)
        (steps? ⟨stack, .after (.array (done.reverse ++ items))⟩ more) := by
  have hopen : (Open.array done :: stack).length ≤ depthLimit := hstack
  match items with
  | [] => exact absurd rfl hne
  | [j] =>
      rw [tokensOfItems, steps?_tokens j hopen]
      show within _ (steps? ⟨stack, .after (.array (j :: done).reverse)⟩ more) = _
      rw [List.reverse_cons, nestingOfItems, nestingOfItems, Nat.max_eq_left (Nat.zero_le _)]
      rfl
  | j :: k :: items =>
      have hothers :=
        steps?_tokensOfItems (k :: items) (List.cons_ne_nil k items) hstack (j :: done) more
      rw [tokensOfItems_cons, List.append_assoc, List.cons_append, steps?_tokens j hopen]
      show within (stack.length + 1 + nesting j)
        (steps? ⟨.array (j :: done) :: stack, .value⟩ _) = _
      rw [hothers, within_within, Nat.add_max_add_left, List.reverse_cons, List.append_assoc]
      rfl

theorem steps?_tokensOfMembers (members : List (String × Json)) (hne : members ≠ [])
    {stack : List Open} (hstack : stack.length < depthLimit) (done : List (String × Json))
    (more : List Token) :
    steps? ⟨stack, .key done⟩ (tokensOfMembers members ++ .objectEnd :: more) =
      within (stack.length + 1 + nestingOfMembers members)
        (steps? ⟨stack, .after (.object (done.reverse ++ members))⟩ more) := by
  match members with
  | [] => exact absurd rfl hne
  | [(key, j)] =>
      have hopen : (Open.object done key :: stack).length ≤ depthLimit := hstack
      show steps? ⟨.object done key :: stack, .value⟩ (tokens j ++ .objectEnd :: more) = _
      rw [steps?_tokens j hopen]
      show within _ (steps? ⟨stack, .after (.object ((key, j) :: done).reverse)⟩ more) = _
      rw [List.reverse_cons, nestingOfMembers, nestingOfMembers, Nat.max_eq_left (Nat.zero_le _)]
      rfl
  | (key, j) :: m :: members =>
      have hopen : (Open.object done key :: stack).length ≤ depthLimit := hstack
      have hothers :=
        steps?_tokensOfMembers (m :: members) (List.cons_ne_nil m members) hstack
          ((key, j) :: done) more
      rw [tokensOfMembers_cons, List.cons_append, List.cons_append, List.append_assoc]
      show steps? ⟨.object done key :: stack, .value⟩
        (tokens j ++ .comma :: (tokensOfMembers (m :: members) ++ .objectEnd :: more)) = _
      rw [steps?_tokens j hopen]
      show within (stack.length + 1 + nesting j)
        (steps? ⟨stack, .key ((key, j) :: done)⟩
          (tokensOfMembers (m :: members) ++ .objectEnd :: more)) = _
      rw [hothers, within_within, Nat.add_max_add_left, List.reverse_cons, List.append_assoc]
      rfl

end

end Progress

/-- The tokens of a document are read as the document, up to the depth limit. -/
theorem ofTokens?_tokens (j : Json) :
    ofTokens? (tokens j) = if nesting j ≤ Progress.depthLimit then some j else none := by
  have hempty : ([] : List Open).length ≤ Progress.depthLimit := Nat.zero_le _
  have hsteps := Progress.steps?_tokens j hempty []
  rw [List.append_nil, List.length_nil, Nat.zero_add] at hsteps
  rw [ofTokens?, hsteps, Progress.within]
  split <;> rfl

mutual

/-- Rereading a document changes its numbers only. -/
theorem nesting_of_reread (j : Json) {j' : Json} (h : reread j = some j') :
    nesting j' = nesting j := by
  cases j with
  | null => exact Option.some.inj h ▸ rfl
  | bool b => exact Option.some.inj h ▸ rfl
  | string s => exact Option.some.inj h ▸ rfl
  | number n =>
      obtain ⟨m, -, rfl⟩ := Option.map_eq_some_iff.1 h
      rfl
  | array items =>
      obtain ⟨items', hitems, rfl⟩ := Option.map_eq_some_iff.1 h
      rw [nesting, nesting, nesting_of_rereadItems items hitems]
  | object members =>
      obtain ⟨members', hmembers, rfl⟩ := Option.map_eq_some_iff.1 h
      rw [nesting, nesting, nesting_of_rereadMembers members hmembers]

theorem nesting_of_rereadItems (items : List Json) {items' : List Json}
    (h : rereadItems items = some items') : nestingOfItems items' = nestingOfItems items := by
  match items with
  | [] => exact Option.some.inj h ▸ rfl
  | j :: rest =>
      obtain ⟨j', hj, hmap⟩ := Option.bind_eq_some_iff.1 h
      obtain ⟨rest', hrest, rfl⟩ := Option.map_eq_some_iff.1 hmap
      rw [nestingOfItems, nestingOfItems, nesting_of_reread j hj, nesting_of_rereadItems rest hrest]

theorem nesting_of_rereadMembers (members : List (String × Json))
    {members' : List (String × Json)} (h : rereadMembers members = some members') :
    nestingOfMembers members' = nestingOfMembers members := by
  match members with
  | [] => exact Option.some.inj h ▸ rfl
  | (key, j) :: rest =>
      obtain ⟨j', hj, hmap⟩ := Option.bind_eq_some_iff.1 h
      obtain ⟨rest', hrest, rfl⟩ := Option.map_eq_some_iff.1 hmap
      rw [nestingOfMembers, nestingOfMembers, nesting_of_reread j hj,
        nesting_of_rereadMembers rest hrest]

end

/-- What the text of a document is read as. -/
theorem parse?_text (j : Json) :
    parse? j.text = if nesting j ≤ Progress.depthLimit then reread j else none := by
  rw [parse?, scan?_text]
  cases hread : reread j with
  | none => simp
  | some j' =>
      rw [Option.map_some, Option.bind_some, ofTokens?_tokens, nesting_of_reread j hread]

/-! ## Properties of all numbers -/

mutual

/-- Whether all numbers of a document have a property. -/
def AllNumbers (P : Number → Prop) : Json → Prop
  | .null | .bool _ | .string _ => True
  | .number n => P n
  | .array items => AllNumbersOfItems P items
  | .object members => AllNumbersOfMembers P members

/-- Whether all numbers in the items of an array have a property. -/
def AllNumbersOfItems (P : Number → Prop) : List Json → Prop
  | [] => True
  | j :: rest => AllNumbers P j ∧ AllNumbersOfItems P rest

/-- Whether all numbers in the members of an object have a property. -/
def AllNumbersOfMembers (P : Number → Prop) : List (String × Json) → Prop
  | [] => True
  | (_, j) :: rest => AllNumbers P j ∧ AllNumbersOfMembers P rest

end

theorem allNumbersOfItems_iff {P : Number → Prop} {items : List Json} :
    AllNumbersOfItems P items ↔ ∀ j ∈ items, AllNumbers P j := by
  induction items with
  | nil => exact iff_of_true trivial (List.forall_mem_nil _)
  | cons j items ih => rw [AllNumbersOfItems, ih, List.forall_mem_cons]

theorem allNumbersOfMembers_iff {P : Number → Prop} {members : List (String × Json)} :
    AllNumbersOfMembers P members ↔ ∀ m ∈ members, AllNumbers P m.2 := by
  induction members with
  | nil => exact iff_of_true trivial (List.forall_mem_nil _)
  | cons m members ih => rw [AllNumbersOfMembers, ih, List.forall_mem_cons]

/-- What numbers with a property are reread as; in the `same` case, as themselves. -/
def RereadWhere (P : Number → Prop) (same : Prop) : Prop :=
  ∀ n, P n → ∃ m, n.reread = some m ∧ (same → m = n)

section

variable {P : Number → Prop} {same : Prop}

mutual

/-- A document is readable when its numbers are, and is the same when they are the same. -/
theorem exists_reread (hread : RereadWhere P same) (j : Json) (h : AllNumbers P j) :
    ∃ j', reread j = some j' ∧ (same → j' = j) := by
  cases j with
  | null => exact ⟨.null, rfl, fun _ => rfl⟩
  | bool b => exact ⟨.bool b, rfl, fun _ => rfl⟩
  | string s => exact ⟨.string s, rfl, fun _ => rfl⟩
  | number n =>
      obtain ⟨m, hm, hsame⟩ := hread n h
      exact ⟨.number m, congrArg (Option.map Json.number) hm, fun hs => congrArg _ (hsame hs)⟩
  | array items =>
      obtain ⟨items', hitems, hsame⟩ := exists_rereadItems hread items h
      exact ⟨.array items', congrArg (Option.map Json.array) hitems, fun hs =>
        congrArg _ (hsame hs)⟩
  | object members =>
      obtain ⟨members', hmembers, hsame⟩ := exists_rereadMembers hread members h
      exact ⟨.object members', congrArg (Option.map Json.object) hmembers, fun hs =>
        congrArg _ (hsame hs)⟩

theorem exists_rereadItems (hread : RereadWhere P same) (items : List Json)
    (h : AllNumbersOfItems P items) :
    ∃ items', rereadItems items = some items' ∧ (same → items' = items) := by
  match items with
  | [] => exact ⟨[], rfl, fun _ => rfl⟩
  | j :: rest =>
      obtain ⟨j', hj, hsame⟩ := exists_reread hread j h.1
      obtain ⟨rest', hrest, hsame'⟩ := exists_rereadItems hread rest h.2
      refine ⟨j' :: rest', ?_, fun hs => by rw [hsame hs, hsame' hs]⟩
      rw [rereadItems, hj, Option.bind_some, hrest]
      rfl

theorem exists_rereadMembers (hread : RereadWhere P same) (members : List (String × Json))
    (h : AllNumbersOfMembers P members) :
    ∃ members', rereadMembers members = some members' ∧ (same → members' = members) := by
  match members with
  | [] => exact ⟨[], rfl, fun _ => rfl⟩
  | (key, j) :: rest =>
      obtain ⟨j', hj, hsame⟩ := exists_reread hread j h.1
      obtain ⟨rest', hrest, hsame'⟩ := exists_rereadMembers hread rest h.2
      refine ⟨(key, j') :: rest', ?_, fun hs => by rw [hsame hs, hsame' hs]⟩
      rw [rereadMembers, hj, Option.bind_some, hrest]
      rfl

end

end

/-- A document whose numbers are integers of 64 bits is reread as it is. -/
theorem reread_of_fitsWord {j : Json} (h : AllNumbers Number.FitsWord j) : reread j = some j := by
  have hread : RereadWhere Number.FitsWord True := by
    intro n hn
    cases n with
    | int n => exact ⟨.int n, Number.read?_int hn, fun _ => rfl⟩
    | real x => exact hn.elim
  obtain ⟨j', hj, hsame⟩ := exists_reread hread j h
  rw [hj, hsame trivial]

/-- A document whose numbers are integers of 64 bits reads back, up to the depth limit. -/
theorem parse?_text_of_fitsWord {j : Json} (h : AllNumbers Number.FitsWord j)
    (hdepth : nesting j ≤ Progress.depthLimit) : parse? j.text = some j := by
  rw [parse?_text, if_pos hdepth, reread_of_fitsWord h]

end ScriptDebugger.Json
