/- digest: Encodings into lists that can be read off the front of a longer list. -/

import Mathlib.Data.List.Basic

/-!
An encoding is self-delimiting if it and what follows it are determined by the whole. Encodings
with this property can be written one after another, so it passes from the parts of a record to
the record, and it implies that the encoding is injective.
-/

namespace ContextEngine.Encoding

open List

variable {α γ β : Type}

/-- Two encodings with something behind them agree only if both parts do. -/
def SelfDelimiting (encode : α → List β) : Prop :=
  ∀ a b s t, encode a ++ s = encode b ++ t → a = b ∧ s = t

variable {f : α → List β} {g : γ → List β}

theorem SelfDelimiting.injective (delimits : SelfDelimiting f) : Function.Injective f := by
  intro a b same
  exact (delimits a b [] [] (congrArg (· ++ []) same)).1

theorem selfDelimiting_single {token : α → β} (injective : Function.Injective token) :
    SelfDelimiting fun a => [token a] := by
  intro a b s t same
  obtain ⟨head, tail⟩ := cons.inj same
  exact ⟨injective head, tail⟩

theorem SelfDelimiting.pair (first : SelfDelimiting f) (second : SelfDelimiting g) :
    SelfDelimiting fun p : α × γ => f p.1 ++ g p.2 := by
  rintro ⟨a, c⟩ ⟨b, d⟩ s t same
  rw [append_assoc, append_assoc] at same
  obtain ⟨rfl, rest⟩ := first a b _ _ same
  obtain ⟨rfl, tail⟩ := second c d _ _ rest
  exact ⟨rfl, tail⟩

theorem SelfDelimiting.comp (delimits : SelfDelimiting f) {h : γ → α}
    (injective : Function.Injective h) : SelfDelimiting fun c => f (h c) := by
  intro c d s t same
  obtain ⟨equal, rest⟩ := delimits (h c) (h d) s t same
  exact ⟨injective equal, rest⟩

theorem SelfDelimiting.literal (delimits : SelfDelimiting f) (text : List β) :
    SelfDelimiting fun a => text ++ f a := by
  intro a b s t same
  rw [append_assoc, append_assoc] at same
  exact delimits a b s t (append_cancel_left same)

theorem SelfDelimiting.closed (delimits : SelfDelimiting f) (text : List β) :
    SelfDelimiting fun a => f a ++ text := by
  intro a b s t same
  rw [append_assoc, append_assoc] at same
  obtain ⟨equal, rest⟩ := delimits a b _ _ same
  exact ⟨equal, append_cancel_left rest⟩

/-- An optional value after one of two marks. -/
def optional (f : α → List β) (absent : List β) (present : β) : Option α → List β
  | none => absent
  | some a => present :: f a

theorem SelfDelimiting.optional (delimits : SelfDelimiting f) {absent present : β}
    (rest : List β) (differ : absent ≠ present) :
    SelfDelimiting (optional f (absent :: rest) present) := by
  rintro (_ | a) (_ | b) s t same
  · exact ⟨rfl, append_cancel_left same⟩
  · exact absurd (cons.inj same).1 differ
  · exact absurd (cons.inj same).1.symm differ
  · obtain ⟨rfl, tail⟩ := delimits a b s t (cons.inj same).2
    exact ⟨rfl, tail⟩

def marked (f : α → List β) (item stop : β) : List α → List β
  | [] => [stop]
  | a :: rest => item :: (f a ++ marked f item stop rest)

theorem SelfDelimiting.marked (delimits : SelfDelimiting f) {item stop : β}
    (differ : item ≠ stop) : SelfDelimiting (marked f item stop) := by
  intro l
  induction l with
  | nil =>
    rintro (_ | ⟨b, r⟩) s t same
    · exact ⟨rfl, (cons.inj same).2⟩
    · exact absurd (cons.inj same).1.symm differ
  | cons a l ih =>
    rintro (_ | ⟨b, r⟩) s t same
    · exact absurd (cons.inj same).1 differ
    · have tail : (f a ++ Encoding.marked f item stop l) ++ s =
          (f b ++ Encoding.marked f item stop r) ++ t := (cons.inj same).2
      rw [append_assoc, append_assoc] at tail
      obtain ⟨rfl, later⟩ := delimits a b _ _ tail
      obtain ⟨rfl, rest⟩ := ih r s t later
      exact ⟨rfl, rest⟩

/-- The number of items, then the items. -/
def counted (f : α → List β) (size : Nat → β) (l : List α) : List β :=
  size l.length :: l.flatMap f

theorem SelfDelimiting.counted (delimits : SelfDelimiting f) {size : Nat → β}
    (injective : Function.Injective size) : SelfDelimiting (counted f size) := by
  have items : ∀ (l r : List α) (s t : List β), l.length = r.length →
      l.flatMap f ++ s = r.flatMap f ++ t → l = r ∧ s = t := by
    intro l
    induction l with
    | nil =>
      rintro (_ | ⟨b, r⟩) s t long same
      · exact ⟨rfl, same⟩
      · cases long
    | cons a l ih =>
      rintro (_ | ⟨b, r⟩) s t long same
      · cases long
      · rw [flatMap_cons, flatMap_cons, append_assoc, append_assoc] at same
        obtain ⟨rfl, later⟩ := delimits a b _ _ same
        obtain ⟨rfl, rest⟩ := ih r s t (Nat.succ.inj long) later
        exact ⟨rfl, rest⟩
  intro l r s t same
  obtain ⟨long, tail⟩ := cons.inj same
  exact items l r s t (injective long) tail

/-- Codewords up to a mark that none of them contains. -/
theorem selfDelimiting_until {stop : β} (injective : Function.Injective f)
    (free : ∀ a, stop ∉ f a) : SelfDelimiting fun a => f a ++ [stop] := by
  have cut : ∀ l r s t : List β, stop ∉ l → stop ∉ r → (l ++ [stop]) ++ s = (r ++ [stop]) ++ t →
      l = r ∧ s = t := by
    intro l
    induction l with
    | nil =>
      rintro (_ | ⟨b, r⟩) s t _ freeR same
      · exact ⟨rfl, (cons.inj same).2⟩
      · exact absurd (cons.inj same).1 fun equal => freeR (equal ▸ mem_cons_self)
    | cons a l ih =>
      rintro (_ | ⟨b, r⟩) s t freeL freeR same
      · exact absurd (cons.inj same).1 fun equal => freeL (equal ▸ mem_cons_self)
      · obtain ⟨rfl, tail⟩ := cons.inj same
        obtain ⟨rfl, rest⟩ := ih r s t (fun mem => freeL (mem_cons_of_mem _ mem))
          (fun mem => freeR (mem_cons_of_mem _ mem)) tail
        exact ⟨rfl, rest⟩
  intro a b s t same
  obtain ⟨equal, rest⟩ := cut (f a) (f b) s t (free a) (free b) same
  exact ⟨injective equal, rest⟩

/-- Codewords of which none begins with another. -/
theorem selfDelimiting_of_prefixFree (free : ∀ a b, f a <+: f b → a = b) : SelfDelimiting f := by
  intro a b s t same
  have order : f a <+: f b ∨ f b <+: f a := by
    have left : f a <+: f b ++ t := same ▸ prefix_append _ _
    exact (List.prefix_or_prefix_of_prefix left (prefix_append _ _))
  have equal : a = b := order.elim (free a b) fun other => (free b a other).symm
  subst equal
  exact ⟨rfl, append_cancel_left same⟩

end ContextEngine.Encoding
