/-
  ToolGateway.Gateway.Redaction

  What the redactor of the in-memory adapters finds.  It searches the printed form of
  a result for the active secrets.  A result that is a string is printed as it is; in
  any other the strings are quoted, and a secret is found wherever it is echoed exactly
  if it survives quoting.
-/

import ToolGateway.Python.Escape
import ToolGateway.Gateway.Adapters

namespace ToolGateway

open Py

namespace DictSecretResolver

section
variable [PrintTables]

/-- A string of the content contains this text. -/
def Echoes (content : Json) (secret : String) : Prop :=
  ∃ text, content.Says text ∧ secret.toList <:+: text.toList

/-- `redact` raises SecretLeak if the printed content contains an active secret. -/
theorem redact_leaks {secrets : Dict String} {r : ToolResult}
    (h : Leaks secrets r.content.toStr) :
    redact secrets r = .error (.gateway (.secretLeak LEAK)) :=
  if_pos h

/-- An echo in a result that is a string is found. -/
theorem redact_text {secrets : Dict String} {ref secret text : String} {r : ToolResult}
    (hmem : (ref, secret) ∈ secrets) (hne : secret ≠ "") (htext : r.content = .str text)
    (hecho : secret.toList <:+: text.toList) :
    redact secrets r = .error (.gateway (.secretLeak LEAK)) := by
  refine redact_leaks ⟨ref, secret, hmem, hne, ?_⟩
  rw [htext]
  exact hecho

/-- An active secret is found wherever an upstream may echo it, if and only if it
    survives quoting. -/
theorem redact_finds_iff (secret : String) :
    (∀ (secrets : Dict String) (ref : String) (r : ToolResult), (ref, secret) ∈ secrets →
      secret ≠ "" → Echoes r.content secret →
        redact secrets r = .error (.gateway (.secretLeak LEAK))) ↔
      Survives secret.toList := by
  rw [← found_iff_survives]
  constructor
  · intro h text content hsays hecho
    by_cases hne : secret = ""
    · rw [hne]
      exact List.nil_infix
    · -- the only active secret is the one that is found
      have hleak := h [("ref", secret)] "ref" { content := content } (List.mem_singleton.mpr rfl)
        hne ⟨text, hsays, hecho⟩
      by_cases hfound : Leaks [("ref", secret)] content.toStr
      · obtain ⟨ref, found, hmem, -, hin⟩ := hfound
        obtain ⟨-, rfl⟩ := Prod.mk.inj (List.mem_singleton.mp hmem)
        exact hin
      · have hkept : redact [("ref", secret)] { content := content } = .ok { content := content } :=
          if_neg hfound
        rw [hkept] at hleak
        cases hleak
  · intro hfound secrets ref r hmem hne ⟨text, hsays, hecho⟩
    exact redact_leaks ⟨ref, secret, hmem, hne, hfound text r.content hsays hecho⟩

end

/-- A key that goes over two lines. -/
def multiline : String := "line\nbreak"

/-- Its lines are printed in one, so it is handed on inside a list. -/
theorem redact_can_miss :
    Echoes (.list [.str multiline]) multiline ∧ multiline ≠ "" ∧
      @redact PrintTables.ascii [("key", multiline)] { content := .list [.str multiline] }
        = .ok { content := .list [.str multiline] } := by
  refine ⟨⟨multiline, .item (List.mem_singleton.mpr rfl) .whole, List.infix_rfl⟩, by decide, ?_⟩
  exact if_neg (by decide +kernel)

end DictSecretResolver

end ToolGateway
