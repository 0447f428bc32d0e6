import WidgetBridge.Text.Basic

/-!
# Indentation of source slices

A slice of source is moved to the left margin by the indentation that its first line had.
-/

namespace WidgetBridge.Text

/-- Drops up to `n` leading spaces. -/
def dropSpaces : Nat → List Char → List Char
  | n + 1, ' ' :: cs => dropSpaces n cs
  | _, cs => cs

/-- A slice that started at a column, counted from one, with its later lines moved to the left by
the indentation of its first line. Trailing blanks are dropped. -/
def dedent (s : String) (column : Nat) : String :=
  match lines s with
  | [] => ""
  | first :: rest =>
    trimEnd (join "\n" (first :: rest.map fun l =>
      String.ofList (dropSpaces (column - 1) l.toList)))

end WidgetBridge.Text
