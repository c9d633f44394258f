import LayeredConfig.Error

/-!
# Reading key paths

`KeyPath.parse` reads the written form of a path: components separated by dots, each nonempty, a backslash
taking the character after it as it stands.
-/

namespace LayeredConfig.KeyPath

/-- Reads the rest of an expression when `current`, reversed, is what stands since the last dot. -/
def componentsFrom (expression : String) (current : List Char) :
    List Char → Except Error (List (List Char))
  | [] => if current.isEmpty then .error (.trailingDot expression) else .ok [current.reverse]
  | ['\\'] => .error (.openEscape expression)
  | '\\' :: c :: rest => componentsFrom expression (c :: current) rest
  | '.' :: rest =>
    if current.isEmpty then .error (.emptyComponent expression)
    else (componentsFrom expression [] rest).map (current.reverse :: ·)
  | c :: rest => componentsFrom expression (c :: current) rest

/-- Reads the written form of a path. -/
def parse (expression : String) : Except Error KeyPath :=
  if expression.isEmpty then .error .emptyPath
  else (componentsFrom expression [] expression.toList).map (·.map String.ofList)

/-- Reading components fails by refusing the text. -/
theorem category_of_componentsFrom {expression : String} {current rest : List Char} {error : Error}
    (fails : componentsFrom expression current rest = .error error) : error.category = .parse := by
  fun_induction componentsFrom expression current rest with
  | case1 | case3 | case5 =>
    cases fails
    rfl
  | case2 => cases fails
  | case4 _ _ _ ih => exact ih fails
  | case6 _ rest _ ih =>
    cases below : componentsFrom expression [] rest with
    | ok components =>
      rw [below] at fails
      cases fails
    | error error' =>
      rw [below] at fails
      cases fails
      exact ih below
  | case7 _ _ _ _ _ _ ih => exact ih fails

/-- Reading a path fails by refusing the text. -/
theorem category_of_parse {expression : String} {error : Error} (fails : parse expression = .error error) :
    error.category = .parse := by
  rw [parse] at fails
  split at fails
  · cases fails
    rfl
  · cases read : componentsFrom expression [] expression.toList with
    | ok components =>
      rw [read] at fails
      cases fails
    | error error' =>
      rw [read] at fails
      cases fails
      exact category_of_componentsFrom read

end LayeredConfig.KeyPath
