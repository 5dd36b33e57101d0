import Interpolation.Proofs.Json.Token

/-! The tokens of a JSON document are read as this document inside any containers, so its text is
read as the document, provided that its numbers are natural and its texts known. -/

namespace Interpolation.Json

/-- A document without a number or a text that reading leaves open. -/
def IsWritten (document : Json) : Prop :=
  ∀ token ∈ toTokens document, token.isWritten = true

theorem Separated.join {front back : List Token} (hfront : Separated front) (token : Token)
    (htoken : token.isWord = false) (hback : Separated back) :
    Separated (front ++ token :: back) := by
  refine List.isChain_append.mpr ⟨hfront, List.isChain_cons.mpr ⟨?_, hback⟩, ?_⟩
  · intro next _ hword
    rw [htoken] at hword
    cases hword
  · intro last _ next hnext _
    obtain rfl : token = next := Option.some.inj hnext
    exact htoken

theorem Separated.nil : Separated [] := List.isChain_nil

mutual

theorem separated_toTokens : ∀ document : Json, Separated (toTokens document)
  | null => List.isChain_singleton _
  | boolean _ => List.isChain_singleton _
  | number _ => List.isChain_singleton _
  | text _ => List.isChain_singleton _
  | array items => by
    have hopen := Separated.nil.join .openArray rfl (separated_itemTokens items)
    exact hopen.join .closeArray rfl .nil
  | object members => by
    have hopen := Separated.nil.join .openObject rfl (separated_memberTokens members)
    exact hopen.join .closeObject rfl .nil

theorem separated_itemTokens : ∀ items : List Json, Separated (itemTokens items)
  | [] => .nil
  | [item] => separated_toTokens item
  | item :: next :: rest => by
    have hitem := separated_toTokens item
    exact hitem.join .comma rfl (separated_itemTokens (next :: rest))

theorem separated_memberTokens : ∀ members : List (Option String × Json),
    Separated (memberTokens members)
  | [] => .nil
  | [(name?, value)] => by
    have hname : Separated [Token.text name?] := List.isChain_singleton _
    exact hname.join .colon rfl (separated_toTokens value)
  | (name?, value) :: next :: rest => by
    have hname : Separated [Token.text name?] := List.isChain_singleton _
    have hmember := hname.join .colon rfl (separated_toTokens value)
    exact hmember.join .comma rfl (separated_memberTokens (next :: rest))

end

theorem exists_toTokens (document : Json) :
    ∃ token rest, toTokens document = token :: rest ∧ token ≠ .closeArray := by
  cases document <;> exact ⟨_, _, rfl, by simp⟩

theorem exists_itemTokens (item : Json) (items : List Json) :
    ∃ token rest, itemTokens (item :: items) = token :: rest ∧ token ≠ .closeArray := by
  obtain ⟨token, rest, htokens, hne⟩ := exists_toTokens item
  cases items with
  | nil => exact ⟨token, rest, htokens, hne⟩
  | cons next items =>
    refine ⟨token, rest ++ .comma :: itemTokens (next :: items), ?_, hne⟩
    rw [itemTokens, htokens, List.cons_append]

theorem exists_memberTokens (member : Option String × Json)
    (members : List (Option String × Json)) :
    ∃ name? rest, memberTokens (member :: members) = .text name? :: rest := by
  cases members with
  | nil => exact ⟨member.1, _, rfl⟩
  | cons next members => exact ⟨member.1, _, rfl⟩

theorem Reading.step_firstValue (items : List Json) (frames : List Frame) {token : Token}
    (h : token ≠ .closeArray) : Reading.step ⟨.array items :: frames, .firstValue⟩ token =
      Reading.step ⟨.array items :: frames, .value⟩ token := by
  cases token with
  | closeArray => exact absurd rfl h
  | _ => rfl

mutual

/-- A document is read as one value, whatever containers are open. -/
theorem run_toTokens : ∀ (document : Json) (frames : List Frame),
    (toTokens document).foldlM Reading.step ⟨frames, .value⟩ = some (Reading.put document frames)
  | null, _ => rfl
  | boolean _, _ => rfl
  | number _, _ => rfl
  | text _, _ => rfl
  | array [], _ => rfl
  | array (item :: items), frames => by
    -- The first item stands where the array might also end, so the state in front of it differs.
    have hitems := run_itemTokens (item :: items) [] frames (List.cons_ne_nil item items)
    obtain ⟨token, rest, htokens, hne⟩ := exists_itemTokens item items
    rw [htokens, List.foldlM_cons, ← Reading.step_firstValue [] frames hne, ← List.foldlM_cons,
      ← htokens, List.append_nil] at hitems
    have hopen : Reading.step ⟨frames, .value⟩ .openArray =
        some ⟨.array [] :: frames, .firstValue⟩ := rfl
    have hclose : Reading.step ⟨.array (item :: items).reverse :: frames, .separator⟩ .closeArray =
        some (Reading.put (array (item :: items).reverse.reverse) frames) := rfl
    rw [List.reverse_reverse] at hclose
    simp only [toTokens, List.cons_append, List.foldlM_cons, hopen, bind, Option.bind_some,
      List.foldlM_append, hitems, hclose, List.foldlM_nil, pure]
  | object [], _ => rfl
  | object (member :: members), frames => by
    have hmembers :=
      run_memberTokens (member :: members) [] frames (List.cons_ne_nil member members)
    obtain ⟨name?, rest, htokens⟩ := exists_memberTokens member members
    have hfirst : Reading.step ⟨frames, .name []⟩ (.text name?) =
        Reading.step ⟨frames, .firstName⟩ (.text name?) := rfl
    rw [htokens, List.foldlM_cons, hfirst, ← List.foldlM_cons, ← htokens,
      List.append_nil] at hmembers
    have hopen : Reading.step ⟨frames, .value⟩ .openObject = some ⟨frames, .firstName⟩ := rfl
    have hclose : Reading.step ⟨.object (member :: members).reverse none :: frames, .separator⟩
        .closeObject = some (Reading.put (object (member :: members).reverse.reverse) frames) := rfl
    rw [List.reverse_reverse] at hclose
    simp only [toTokens, List.cons_append, List.foldlM_cons, hopen, bind, Option.bind_some,
      List.foldlM_append, hmembers, hclose, List.foldlM_nil, pure]

theorem run_itemTokens : ∀ (items done : List Json) (frames : List Frame), items ≠ [] →
    (itemTokens items).foldlM Reading.step ⟨.array done :: frames, .value⟩ =
      some ⟨.array (items.reverse ++ done) :: frames, .separator⟩
  | [], _, _, hne => absurd rfl hne
  | [item], done, frames, _ => run_toTokens item (.array done :: frames)
  | item :: next :: rest, done, frames, _ => by
    have hitem := run_toTokens item (.array done :: frames)
    have hrest := run_itemTokens (next :: rest) (item :: done) frames (List.cons_ne_nil next rest)
    have hcomma : Reading.step ⟨.array (item :: done) :: frames, .separator⟩ .comma =
        some ⟨.array (item :: done) :: frames, .value⟩ := rfl
    rw [itemTokens, List.foldlM_append, hitem, List.reverse_cons, List.append_assoc]
    simp only [Reading.put, bind, Option.bind_some, List.foldlM_cons, hcomma, hrest]
    rfl

theorem run_memberTokens : ∀ (members done : List (Option String × Json)) (frames : List Frame),
    members ≠ [] → (memberTokens members).foldlM Reading.step ⟨frames, .name done⟩ =
      some ⟨.object (members.reverse ++ done) none :: frames, .separator⟩
  | [], _, _, hne => absurd rfl hne
  | [(name?, value)], done, frames, _ => run_toTokens value (.object done name? :: frames)
  | (name?, value) :: next :: rest, done, frames, _ => by
    have hvalue := run_toTokens value (.object done name? :: frames)
    have hrest := run_memberTokens (next :: rest) ((name?, value) :: done) frames
      (List.cons_ne_nil next rest)
    have hname : Reading.step ⟨frames, .name done⟩ (.text name?) =
        some ⟨.object done name? :: frames, .colon⟩ := rfl
    have hcolon : Reading.step ⟨.object done name? :: frames, .colon⟩ .colon =
        some ⟨.object done name? :: frames, .value⟩ := rfl
    have hcomma :
        Reading.step ⟨.object ((name?, value) :: done) none :: frames, .separator⟩ .comma =
        some ⟨frames, .name ((name?, value) :: done)⟩ := rfl
    rw [memberTokens, List.reverse_cons, List.append_assoc]
    simp only [List.foldlM_cons, List.cons_append, List.foldlM_append, hname, hcolon, hvalue,
      Reading.put, bind, Option.bind_some, hcomma, hrest]
    rfl

end

theorem parse?_print {document : Json} (h : document.IsWritten) :
    parse? document.print = some document := by
  have htokens := tokens?_flatMap_print h (separated_toTokens document)
  have hreading := run_toTokens document []
  unfold parse? print
  rw [String.toList_ofList, htokens]
  simp only [bind, Option.bind_some, Reading.start, hreading, Reading.put, Reading.finish]

end Interpolation.Json
