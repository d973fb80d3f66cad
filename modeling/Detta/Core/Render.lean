import Detta.Base.Sha256
import Detta.Core.Merkle
import Mathlib.Tactic.IntervalCases

/-!
# The text of a JSON value

The compact text of a JSON value, with the escapes of the serializer that the source uses.
It is the encoding that hashes are meant to be computed from, and it determines the value
(`renderBytes_injective`): a text ends where its value ends, whatever follows. With it, the
hashes of the source can be computed (`Hashing.standard`).
-/

namespace Detta

namespace Json

/-! ## Rendering -/

def quote : Char := Char.ofNat 34

def backslash : Char := Char.ofNat 92

/-- The letter of a short escape, by the code of the character. -/
def shortEscape : ℕ → Option Char
  | 8 => some 'b'
  | 9 => some 't'
  | 10 => some 'n'
  | 12 => some 'f'
  | 13 => some 'r'
  | 34 => some quote
  | 92 => some backslash
  | _ => none

/-- How a character is written inside of a text. -/
def escapeChar (c : Char) : List Char :=
  match shortEscape c.toNat with
  | some letter => [backslash, letter]
  | none =>
    if c.toNat < 32 then
      [backslash, 'u', '0', '0', hexDigit (c.toNat / 16), hexDigit (c.toNat % 16)]
    else [c]

def renderText (text : String) : List Char :=
  quote :: (text.toList.flatMap escapeChar ++ [quote])

mutual

def render : Json → List Char
  | null => ['n', 'u', 'l', 'l']
  | bool true => ['t', 'r', 'u', 'e']
  | bool false => ['f', 'a', 'l', 's', 'e']
  | num value => Nat.toDigits 10 value
  | str value => renderText value
  | arr [] => ['[', ']']
  | arr (item :: items) => '[' :: (item.render ++ renderItems items)
  | obj [] => ['\x7b', '\x7d']
  | obj ((name, value) :: fields) =>
    '\x7b' :: (renderText name ++ ':' :: (value.render ++ renderFields fields))

/-- The items of an array after the first. -/
def renderItems : List Json → List Char
  | [] => [']']
  | item :: items => ',' :: (item.render ++ renderItems items)

/-- The fields of an object after the first. -/
def renderFields : List (String × Json) → List Char
  | [] => ['\x7d']
  | (name, value) :: fields =>
    ',' :: (renderText name ++ ':' :: (value.render ++ renderFields fields))

end

/-- The text of a value as bytes. -/
def renderBytes (value : Json) : Bytes := value.render.flatMap String.utf8EncodeChar

/-! ## Characters and texts -/

/-- The character that a short escape stands for. -/
def longEscape (c : Char) : Char :=
  if c = 'b' then Char.ofNat 8
  else if c = 't' then Char.ofNat 9
  else if c = 'n' then Char.ofNat 10
  else if c = 'f' then Char.ofNat 12
  else if c = 'r' then Char.ofNat 13
  else c

/-- Read one character of a text back. -/
def unescape : List Char → Option (Char × List Char)
  | [] => none
  | c :: rest =>
    if c = backslash then
      match rest with
      | 'u' :: _ :: _ :: high :: low :: rest =>
        some (Char.ofNat (16 * (hexValue high).getD 0 + (hexValue low).getD 0), rest)
      | letter :: rest => some (longEscape letter, rest)
      | [] => none
    else some (c, rest)

variable {u u' : List Char}

/-- An escaped character is read back, whatever follows. -/
theorem unescape_escapeChar (c : Char) (rest : List Char) :
    unescape (escapeChar c ++ rest) = some (c, rest) := by
  by_cases hspecial : c.toNat < 32 ∨ c.toNat = 34 ∨ c.toNat = 92
  · -- there are few characters that are escaped
    have hc : c = Char.ofNat c.toNat := (Char.ofNat_toNat c).symm
    rw [hc]
    generalize c.toNat = n at hspecial
    rcases hspecial with hn | rfl | rfl
    · interval_cases n <;> rfl
    · rfl
    · rfl
  · have hshort : shortEscape c.toNat = none := by
      unfold shortEscape
      split <;> first | rfl | omega
    have hne : c ≠ backslash := by
      rintro rfl
      exact hspecial (.inr (.inr rfl))
    have hescape : escapeChar c = [c] := by
      rw [escapeChar, hshort]
      exact if_neg (by omega)
    rw [hescape]
    exact if_neg hne

theorem escapeChar_append_inj {c c' : Char} (h : escapeChar c ++ u = escapeChar c' ++ u') :
    c = c' ∧ u = u' := by
  have hread := congrArg unescape h
  rw [unescape_escapeChar, unescape_escapeChar, Option.some.injEq, Prod.mk.injEq] at hread
  exact hread

/-- No escaped character starts with a quote. -/
theorem head_escapeChar_ne_quote (c : Char) (u v : List Char) : quote :: u ≠ escapeChar c ++ v := by
  intro h
  unfold escapeChar at h
  split at h
  next => exact absurd (List.cons.inj h).1 (by decide)
  next hshort =>
    split at h
    next => exact absurd (List.cons.inj h).1 (by decide)
    next =>
      rw [← (List.cons.inj h).1] at hshort
      cases hshort

/-- A text ends at its closing quote. -/
theorem flatMap_escapeChar_inj {cs cs' : List Char}
    (h : cs.flatMap escapeChar ++ quote :: u = cs'.flatMap escapeChar ++ quote :: u') :
    cs = cs' ∧ u = u' := by
  induction cs generalizing cs' with
  | nil =>
    cases cs' with
    | nil => exact ⟨rfl, (List.cons.inj h).2⟩
    | cons c' cs' =>
      rw [List.flatMap_nil, List.nil_append, List.flatMap_cons, List.append_assoc] at h
      exact absurd h (head_escapeChar_ne_quote _ _ _)
  | cons c cs ih =>
    cases cs' with
    | nil =>
      rw [List.flatMap_nil, List.nil_append, List.flatMap_cons, List.append_assoc] at h
      exact absurd h.symm (head_escapeChar_ne_quote _ _ _)
    | cons c' cs' =>
      rw [List.flatMap_cons, List.flatMap_cons, List.append_assoc, List.append_assoc] at h
      obtain ⟨rfl, hrest⟩ := escapeChar_append_inj h
      obtain ⟨rfl, hu⟩ := ih hrest
      exact ⟨rfl, hu⟩

theorem renderText_append_inj {t t' : String} (h : renderText t ++ u = renderText t' ++ u') :
    t = t' ∧ u = u' := by
  simp only [renderText, List.cons_append, List.append_assoc, List.nil_append, List.cons.injEq,
    true_and] at h
  obtain ⟨htext, hu⟩ := flatMap_escapeChar_inj h
  exact ⟨String.toList_inj.1 htext, hu⟩

/-! ## Numbers -/

/-- The rest of a text does not continue a number. -/
def Stops (u : List Char) : Prop := ∀ c ∈ u.head?, c.isDigit = false

theorem toDigits_append_inj {n n' : ℕ} (hu : Stops u) (hu' : Stops u')
    (h : Nat.toDigits 10 n ++ u = Nat.toDigits 10 n' ++ u') : n = n' ∧ u = u' := by
  have hspan : ∀ (m : ℕ) (v : List Char), Stops v →
      (Nat.toDigits 10 m ++ v).takeWhile Char.isDigit = Nat.toDigits 10 m := by
    intro m v hv
    rw [List.takeWhile_append_of_pos fun c hc =>
      Nat.isDigit_of_mem_toDigits (by decide) (by decide) hc]
    cases v with
    | nil => simp
    | cons c v => rw [List.takeWhile_cons_of_neg (by simp [hv c rfl]), List.append_nil]
  have hdigits : Nat.toDigits 10 n = Nat.toDigits 10 n' := by
    rw [← hspan n u hu, h, hspan n' u' hu']
  refine ⟨?_, List.append_cancel_left (hdigits ▸ h)⟩
  rw [← @Nat.ofDigitChars_ten_toDigits n, hdigits, Nat.ofDigitChars_ten_toDigits]

/-! ## Values -/

/-- What kind of value starts with a character. -/
def kindOf (c : Char) : ℕ :=
  if c.isDigit then 2
  else if c = 'n' then 0
  else if c = 't' ∨ c = 'f' then 1
  else if c = quote then 3
  else if c = '[' then 4
  else if c = '\x7b' then 5
  else 6

/-- The kind of a value. -/
def kind : Json → ℕ
  | null => 0
  | bool _ => 1
  | num _ => 2
  | str _ => 3
  | arr _ => 4
  | obj _ => 5

/-- The first character of a value tells its kind. -/
theorem render_head (v : Json) : ∃ c rest, v.render = c :: rest ∧ kindOf c = v.kind := by
  cases v with
  | null => exact ⟨_, _, rfl, by decide⟩
  | bool b => cases b <;> exact ⟨_, _, rfl, by decide⟩
  | num n =>
    obtain ⟨c, rest, hd⟩ := List.exists_cons_of_ne_nil (@Nat.toDigits_ne_nil n 10)
    have hdigit : c.isDigit := Nat.isDigit_of_mem_toDigits (b := 10) (by decide) (by decide)
      (hd ▸ List.mem_cons_self)
    exact ⟨c, rest, hd, by rw [kindOf, if_pos hdigit, kind]⟩
  | str t => exact ⟨_, _, rfl, (by decide : kindOf quote = 3)⟩
  | arr items => cases items <;> exact ⟨_, _, rfl, (by decide : kindOf '[' = 4)⟩
  | obj fields => cases fields <;> exact ⟨_, _, rfl, (by decide : kindOf '\x7b' = 5)⟩

theorem kind_eq_of_render {v v' : Json} (h : v.render ++ u = v'.render ++ u') :
    v.kind = v'.kind := by
  obtain ⟨c, rest, hr, hk⟩ := render_head v
  obtain ⟨c', rest', hr', hk'⟩ := render_head v'
  rw [hr, hr'] at h
  rw [← hk, ← hk', (List.cons.inj h).1]

/-- No value starts like the end of an array. -/
theorem render_ne_of_kindOf {c : Char} (hc : kindOf c = 6) (v : Json) (u w : List Char) :
    c :: u ≠ v.render ++ w := by
  intro h
  obtain ⟨c', rest, hr, hk⟩ := render_head v
  rw [hr] at h
  rw [(List.cons.inj h).1, hk] at hc
  cases v <;> cases hc

theorem stops_renderItems (items : List Json) (u : List Char) : Stops (renderItems items ++ u) := by
  cases items <;> intro c hc <;> cases hc <;> decide

theorem stops_renderFields (fields : List (String × Json)) (u : List Char) :
    Stops (renderFields fields ++ u) := by
  cases fields <;> intro c hc <;> cases hc <;> decide

/-- An array is written like the items of one that are still to come, but for how it starts. -/
theorem renderItems_of_arr {items items' : List Json}
    (h : (arr items).render ++ u = (arr items').render ++ u') :
    renderItems items ++ u = renderItems items' ++ u' := by
  have hrest := congrArg List.tail h
  cases items <;> cases items' <;>
    simp only [render, List.cons_append, List.append_assoc, List.nil_append, List.tail_cons]
      at hrest
  · exact hrest
  · exact absurd hrest (render_ne_of_kindOf (by decide) _ _ _)
  · exact absurd hrest.symm (render_ne_of_kindOf (by decide) _ _ _)
  · simp only [renderItems, List.cons_append, List.append_assoc, hrest]

theorem renderFields_of_obj {fields fields' : List (String × Json)}
    (h : (obj fields).render ++ u = (obj fields').render ++ u') :
    renderFields fields ++ u = renderFields fields' ++ u' := by
  have hrest := congrArg List.tail h
  cases fields <;> cases fields' <;>
    simp only [render, List.cons_append, List.append_assoc, List.nil_append, List.tail_cons]
      at hrest
  · exact hrest
  · exact absurd (List.cons.inj hrest).1 (by decide)
  · exact absurd (List.cons.inj hrest).1 (by decide)
  · simp only [renderFields, List.cons_append, List.append_assoc, hrest]

mutual

/-- A value ends where its text ends. -/
theorem render_append_inj : ∀ {v v' : Json} {u u' : List Char}, Stops u → Stops u' →
    v.render ++ u = v'.render ++ u' → v = v' ∧ u = u'
  | null, v', u, u', _, _, h => by
    have hk := kind_eq_of_render h
    cases v' <;> cases hk
    exact ⟨rfl, List.append_cancel_left h⟩
  | bool b, v', u, u', _, _, h => by
    have hk := kind_eq_of_render h
    cases v' <;> cases hk
    next b' =>
      cases b <;> cases b' <;> first
        | exact ⟨rfl, List.append_cancel_left h⟩
        | exact absurd (List.cons.inj h).1 (by decide)
  | num n, v', u, u', hu, hu', h => by
    have hk := kind_eq_of_render h
    cases v' <;> cases hk
    obtain ⟨rfl, heq⟩ := toDigits_append_inj hu hu' h
    exact ⟨rfl, heq⟩
  | str t, v', u, u', _, _, h => by
    have hk := kind_eq_of_render h
    cases v' <;> cases hk
    obtain ⟨rfl, heq⟩ := renderText_append_inj h
    exact ⟨rfl, heq⟩
  | arr items, v', u, u', _, _, h => by
    have hk := kind_eq_of_render h
    cases v' <;> cases hk
    obtain ⟨rfl, heq⟩ := renderItems_append_inj (renderItems_of_arr h)
    exact ⟨rfl, heq⟩
  | obj fields, v', u, u', _, _, h => by
    have hk := kind_eq_of_render h
    cases v' <;> cases hk
    obtain ⟨rfl, heq⟩ := renderFields_append_inj (renderFields_of_obj h)
    exact ⟨rfl, heq⟩

theorem renderItems_append_inj : ∀ {items items' : List Json} {u u' : List Char},
    renderItems items ++ u = renderItems items' ++ u' → items = items' ∧ u = u'
  | [], [], u, u', h => ⟨rfl, List.append_cancel_left h⟩
  | [], _ :: _, u, u', h => absurd (List.cons.inj h).1 (by decide)
  | _ :: _, [], u, u', h => absurd (List.cons.inj h).1 (by decide)
  | item :: items, item' :: items', u, u', h => by
    simp only [renderItems, List.cons_append, List.append_assoc, List.cons.injEq, true_and] at h
    obtain ⟨hitem, hrest⟩ := render_append_inj (stops_renderItems _ _) (stops_renderItems _ _) h
    obtain ⟨hitems, heq⟩ := renderItems_append_inj hrest
    exact ⟨by rw [hitem, hitems], heq⟩

theorem renderFields_append_inj : ∀ {fields fields' : List (String × Json)} {u u' : List Char},
    renderFields fields ++ u = renderFields fields' ++ u' → fields = fields' ∧ u = u'
  | [], [], u, u', h => ⟨rfl, List.append_cancel_left h⟩
  | [], _ :: _, u, u', h => absurd (List.cons.inj h).1 (by decide)
  | _ :: _, [], u, u', h => absurd (List.cons.inj h).1 (by decide)
  | (name, value) :: fields, (name', value') :: fields', u, u', h => by
    simp only [renderFields, List.cons_append, List.append_assoc, List.cons.injEq, true_and] at h
    obtain ⟨hname, hrest⟩ := renderText_append_inj h
    rw [List.cons.injEq] at hrest
    obtain ⟨hvalue, hrest⟩ := render_append_inj (stops_renderFields _ _) (stops_renderFields _ _)
      hrest.2
    obtain ⟨hfields, heq⟩ := renderFields_append_inj hrest
    exact ⟨by rw [hname, hvalue, hfields], heq⟩

end

theorem render_injective : Function.Injective render := by
  intro v v' h
  have hstops : Stops [] := fun c hc => by cases hc
  exact (render_append_inj hstops hstops (congrArg (· ++ []) h)).1

/-- The bytes of a value determine it. -/
theorem renderBytes_injective : Function.Injective renderBytes := by
  intro v v' h
  have hbytes : (String.ofList v.render).toByteArray = (String.ofList v'.render).toByteArray := by
    rw [String.toByteArray_ofList, String.toByteArray_ofList]
    exact congrArg List.toByteArray h
  have htext := congrArg String.toList (String.toByteArray_inj.1 hbytes)
  rw [String.toList_ofList, String.toList_ofList] at htext
  exact render_injective htext

/-- A text whose bytes begin those of another text begins that text. -/
theorem prefix_of_utf8 {cs cs' : List Char}
    (h : cs.flatMap String.utf8EncodeChar <+: cs'.flatMap String.utf8EncodeChar) : cs <+: cs' := by
  induction cs generalizing cs' with
  | nil => exact List.nil_prefix
  | cons c cs ih =>
    obtain ⟨rest, h⟩ := h
    cases cs' with
    | nil => simp [String.utf8EncodeChar_ne_nil] at h
    | cons c' cs' =>
      rw [List.flatMap_cons, List.flatMap_cons, List.append_assoc] at h
      have hread := congrArg (fun bytes : Bytes => bytes.toByteArray.utf8DecodeChar? 0) h
      simp only [List.toByteArray_append, ByteArray.utf8DecodeChar?_utf8EncodeChar_append,
        Option.some.injEq] at hread
      subst hread
      exact List.cons_prefix_cons.2 ⟨rfl, ih ⟨rest, List.append_cancel_left h⟩⟩

/-- The bytes of an object do not begin those of another object. -/
theorem eq_of_renderBytes_prefix {fields fields' : List (String × Json)}
    (h : (obj fields).renderBytes <+: (obj fields').renderBytes) : fields = fields' := by
  obtain ⟨rest, h⟩ := prefix_of_utf8 h
  exact (renderFields_append_inj (renderFields_of_obj (h.trans (List.append_nil _).symm))).1

end Json

/-- The bytes and the hash function that the source uses. -/
def Hashing.standard : Hashing := ⟨Json.renderBytes, Detta.sha256⟩

end Detta
