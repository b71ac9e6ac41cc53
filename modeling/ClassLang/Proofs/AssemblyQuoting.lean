import ClassLang.Text.Quoted
import Mathlib.Tactic.SplitIfs

namespace ClassLang.Proofs.AssemblyQuoting

open ClassLang.Text

/-- The text between the quotes of a string constant, read left to right. -/
inductive AssemblyForm : List Char → Prop
  | nil : AssemblyForm []
  | plain {c : Char} {cs : List Char} :
      escapedInAssembly c = false → AssemblyForm cs → AssemblyForm (c :: cs)
  | escape {e : Char} {cs : List Char} :
      (escapedBy e).isSome → AssemblyForm cs → AssemblyForm ('\\' :: e :: cs)

theorem escapedBy_isSome_iff (e : Char) :
    (escapedBy e).isSome ↔ e ∈ ['"', '\\', 'n', 't', 'r'] := by
  unfold escapedBy
  split_ifs <;> simp_all

theorem escapeAssemblyChar_cases (c : Char) :
    (escapeAssemblyChar c = [c] ∧ escapedInAssembly c = false) ∨
      ∃ e, escapeAssemblyChar c = ['\\', e] ∧ escapedBy e = some c := by
  unfold escapeAssemblyChar
  split_ifs with h₁ h₂ h₃ h₄ h₅
  · subst h₁; exact .inr ⟨_, rfl, by decide⟩
  · subst h₂; exact .inr ⟨_, rfl, by decide⟩
  · subst h₃; exact .inr ⟨_, rfl, by decide⟩
  · subst h₄; exact .inr ⟨_, rfl, by decide⟩
  · subst h₅; exact .inr ⟨_, rfl, by decide⟩
  · exact .inl ⟨rfl, by simp [escapedInAssembly, h₁, h₂, h₃, h₄, h₅]⟩

theorem escapeAssembly_form (cs : List Char) : AssemblyForm (escapeAssembly cs) := by
  induction cs with
  | nil => exact .nil
  | cons c cs ih =>
    rw [escapeAssembly_cons]
    rcases escapeAssemblyChar_cases c with ⟨h, hc⟩ | ⟨e, h, he⟩
    · rw [h]
      exact .plain hc ih
    · rw [h]
      exact .escape (by simp [he]) ih

theorem AssemblyForm.mem {cs : List Char} (h : AssemblyForm cs) {x : Char} (hx : x ∈ cs) :
    escapedInAssembly x = false ∨ x = '\\' ∨ (escapedBy x).isSome := by
  induction h with
  | nil => cases hx
  | plain hc _ ih =>
    rcases List.mem_cons.mp hx with rfl | hx
    · exact .inl hc
    · exact ih hx
  | escape he _ ih =>
    rcases List.mem_cons.mp hx with rfl | hx
    · exact .inr (.inl rfl)
    rcases List.mem_cons.mp hx with rfl | hx
    · exact .inr (.inr he)
    · exact ih hx

theorem AssemblyForm.no_line_break {cs : List Char} (h : AssemblyForm cs) :
    '\n' ∉ cs ∧ '\r' ∉ cs :=
  ⟨fun hx ↦ absurd (h.mem hx) (by decide), fun hx ↦ absurd (h.mem hx) (by decide)⟩

theorem AssemblyForm.cons_iff {c : Char} {rest : List Char} :
    AssemblyForm (c :: rest) ↔ (escapedInAssembly c = false ∧ AssemblyForm rest) ∨
      (c = '\\' ∧ ∃ e r, rest = e :: r ∧ (escapedBy e).isSome ∧ AssemblyForm r) := by
  constructor
  · intro h
    cases h with
    | plain hc h => exact .inl ⟨hc, h⟩
    | escape he h => exact .inr ⟨rfl, _, _, rfl, he, h⟩
  · rintro (⟨hc, h⟩ | ⟨rfl, e, r, rfl, he, h⟩)
    · exact .plain hc h
    · exact .escape he h

theorem AssemblyForm.of_append {pre post : List Char} (hp : AssemblyForm pre)
    (h : AssemblyForm (pre ++ post)) : AssemblyForm post := by
  induction hp with
  | nil => exact h
  | plain hc _ ih =>
    rcases AssemblyForm.cons_iff.mp h with ⟨-, h⟩ | ⟨rfl, -⟩
    · exact ih h
    · exact absurd hc (by decide)
  | escape _ _ ih =>
    rcases AssemblyForm.cons_iff.mp h with ⟨hc, -⟩ | ⟨-, e, r, hr, -, h⟩
    · exact absurd hc (by decide)
    · obtain ⟨-, hr⟩ := List.cons.inj hr
      rw [← hr] at h
      exact ih h

theorem AssemblyForm.backslash_escapes {pre post : List Char} (hp : AssemblyForm pre)
    (h : AssemblyForm (pre ++ '\\' :: post)) :
    ∃ e rest, post = e :: rest ∧ e ∈ ['"', '\\', 'n', 't', 'r'] ∧ AssemblyForm rest := by
  cases hp.of_append h with
  | plain hc _ => exact absurd hc (by decide)
  | escape he hr => exact ⟨_, _, rfl, (escapedBy_isSome_iff _).mp he, hr⟩

theorem AssemblyForm.quote_escaped {pre post : List Char}
    (h : AssemblyForm (pre ++ '"' :: post)) :
    ∃ units, pre = units ++ ['\\'] ∧ AssemblyForm units ∧ AssemblyForm post := by
  generalize hq : pre ++ '"' :: post = q at h
  induction h generalizing pre with
  | nil => simp at hq
  | @plain c cs hc _ ih =>
    cases pre with
    | nil =>
      -- the quote would be a character written as itself
      obtain ⟨rfl, -⟩ := List.cons.inj hq
      exact absurd hc (by decide)
    | cons x pre =>
      simp only [List.cons_append, List.cons.injEq] at hq
      obtain ⟨rfl, hq⟩ := hq
      obtain ⟨units, rfl, hu, hpost⟩ := ih hq
      exact ⟨x :: units, rfl, .plain hc hu, hpost⟩
  | @escape e cs he hcs ih =>
    rcases pre with _ | ⟨x, _ | ⟨y, pre⟩⟩
    · exact absurd (List.cons.inj hq).1 (by decide)
    · simp only [List.cons_append, List.nil_append, List.cons.injEq] at hq
      obtain ⟨rfl, rfl, rfl⟩ := hq
      exact ⟨[], rfl, .nil, hcs⟩
    · simp only [List.cons_append, List.cons.injEq] at hq
      obtain ⟨rfl, rfl, hq⟩ := hq
      obtain ⟨units, rfl, hu, hpost⟩ := ih hq
      exact ⟨'\\' :: y :: units, rfl, .escape he hu, hpost⟩

theorem quoteAssembly_toList (s : String) :
    (quoteAssembly s).toList = '"' :: escapeAssembly s.toList ++ ['"'] :=
  String.toList_ofList

theorem quoteAssembly_injective : Function.Injective quoteAssembly := by
  intro s t h
  have hq := congrArg String.toList h
  rw [quoteAssembly_toList, quoteAssembly_toList, List.cons_append, List.cons_append,
    List.cons.injEq] at hq
  have hi : escapeAssembly s.toList = escapeAssembly t.toList := List.append_cancel_right hq.2
  have hd := congrArg unescapeAssembly hi
  rw [unescapeAssembly_escapeAssembly, unescapeAssembly_escapeAssembly, Option.some.injEq] at hd
  exact String.ext hd

/-- A string constant's operand is the string's quoted text between two double quotes. It holds
no line feed or carriage return. Read left to right, every backslash met at the start of a unit
starts one of the escapes `\"`, `\\`, `\n`, `\t`, `\r`, and every double quote inside is the
letter of such an escape, right after its backslash. Decoding the escapes gives the string back,
so no two strings have the same operand. -/
theorem assembly_quoting_injective_lineSafe :
    Function.Injective quoteAssembly ∧
      ∀ s : String, ∃ inner : List Char,
        (quoteAssembly s).toList = '"' :: inner ++ ['"'] ∧
        '\n' ∉ (quoteAssembly s).toList ∧ '\r' ∉ (quoteAssembly s).toList ∧
        AssemblyForm inner ∧
        (∀ pre post, inner = pre ++ '\\' :: post → AssemblyForm pre →
          ∃ e rest, post = e :: rest ∧ e ∈ ['"', '\\', 'n', 't', 'r']) ∧
        (∀ pre post, inner = pre ++ '"' :: post →
          ∃ units, pre = units ++ ['\\'] ∧ AssemblyForm units) ∧
        unescapeAssembly inner = some s.toList := by
  refine ⟨quoteAssembly_injective, fun s ↦ ⟨escapeAssembly s.toList, quoteAssembly_toList s, ?_⟩⟩
  have hf := escapeAssembly_form s.toList
  obtain ⟨hlf, hcr⟩ := hf.no_line_break
  rw [quoteAssembly_toList]
  refine ⟨by simpa using hlf, by simpa using hcr, hf, ?_, ?_, unescapeAssembly_escapeAssembly _⟩
  · rintro pre post hpre hp
    obtain ⟨e, rest, rfl, he, -⟩ := hp.backslash_escapes (hpre ▸ hf)
    exact ⟨e, rest, rfl, he⟩
  · rintro pre post hpre
    obtain ⟨units, rfl, hu, -⟩ := AssemblyForm.quote_escaped (hpre ▸ hf)
    exact ⟨units, rfl, hu⟩

end ClassLang.Proofs.AssemblyQuoting
