import LanguageUsage.Value.Display
import LanguageUsage.Value.Equality

/-!
# Signal kinds

The events from which a language is observed. In storage and in documents a kind is written as its
stored word; callers may pass any value where a kind is expected, which `GivenKind` keeps apart
from a kind proper.

* `SignalKind`, `SignalKind.word`, `SignalKind.ofWord?`, `ofWord?_eq_some_iff`;
* `GivenKind`, `GivenKind.denotes`: a kind is found by itself and by its stored word.
-/

namespace LanguageUsage

/-- The event that produced an observation. -/
inductive SignalKind
  | conversationActions
  | classifyText
  deriving DecidableEq, Repr, Inhabited

namespace SignalKind

/-- Both kinds, in the order in which they are reported. -/
def all : List SignalKind := [.conversationActions, .classifyText]

/-- The name shown to users. -/
def name : SignalKind → String
  | .conversationActions => "CONVERSATION_ACTIONS"
  | .classifyText => "CLASSIFY_TEXT"

/-- The word that is stored. -/
def word : SignalKind → String
  | .conversationActions => "suggest_conversation_actions"
  | .classifyText => "classify_text"

/-- The kind with the given stored word. -/
def ofWord? (w : String) : Option SignalKind := all.find? fun k => k.word == w

theorem ofWord?_eq_some_iff {w : String} {k : SignalKind} : ofWord? w = some k ↔ k.word = w := by
  constructor
  · intro h
    simpa using List.find?_some h
  · rintro rfl
    cases k <;> decide

theorem word_injective {k l : SignalKind} (h : k.word = l.word) : k = l := by
  have hk : ofWord? l.word = some k := ofWord?_eq_some_iff.2 h
  have hl : ofWord? l.word = some l := ofWord?_eq_some_iff.2 rfl
  exact Option.some.inj (hk.symm.trans hl)

@[simp] theorem word_inj {k l : SignalKind} : k.word = l.word ↔ k = l :=
  ⟨word_injective, congrArg word⟩

@[simp] theorem ofWord?_word (k : SignalKind) : ofWord? k.word = some k := ofWord?_eq_some_iff.2 rfl

end SignalKind

/-- What a caller passes where a signal kind is expected. -/
inductive GivenKind
  | kind (k : SignalKind)
  | other (v : Value)
  deriving DecidableEq, Repr, Inhabited

namespace GivenKind

/-- Rows of the kind `k` are found by `k` itself, and by the text that is its stored word. -/
def denotes : GivenKind → SignalKind → Bool
  | .kind k, l => k == l
  | .other v, l => v == .text l.word

/-- Two given kinds denote the same thing. -/
def equals : GivenKind → GivenKind → Bool
  | .kind k, g => g.denotes k
  | g, .kind k => g.denotes k
  | .other v, .other w => v.equals w

@[simp] theorem kind_denotes {k l : SignalKind} : denotes (.kind k) l = true ↔ k = l := by
  simp [denotes]

end GivenKind

end LanguageUsage
