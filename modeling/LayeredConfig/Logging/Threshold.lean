import LayeredConfig.Journal.Record

/-!
# Names of log levels

The level of a log may be given by several names, in any case. A text that names no level means the level of
ordinary news.
-/

namespace LayeredConfig.Level

/-- A character in upper case, for the letters whose upper case is one of A to Z: the lowercase ASCII letters,
the dotless i and the long s. -/
def upper (c : Char) : Char :=
  if c = '\u0131' then 'I' else if c = '\u017f' then 'S' else c.toUpper

/-- The names of levels. -/
def names : List (String × Level) :=
  [("TRACE", .debug), ("DEBUG", .debug), ("INFO", .info), ("WARN", .warning), ("WARNING", .warning),
    ("ERROR", .error), ("FATAL", .critical), ("CRITICAL", .critical)]

/-- The level that a text names. -/
def ofText (text : String) : Level :=
  (names.lookup (text.map upper)).getD .info

/-- The level that a text names, if there is one. -/
def ofText? (text : Option String) : Level :=
  (text.map ofText).getD .info

end LayeredConfig.Level
