import Unstack.Builtin.Registry

/-!
The standard registry: the builtin functions of the script engine.
-/

namespace Unstack.Registry

private def num (name : String) : Param := ⟨name, .numeric⟩

private def str (name : String) : Param := ⟨name, .rawString⟩

private def strid (name : String) : Param := ⟨name, .languageString⟩

/-- The builtin functions of the script engine with their parameters. -/
def standardFunctions : List (String × List Param) :=
  [("loadBlockProperties", [str "file"]),
    ("loadLangFile", [str "file"]),
    ("loadLevelShapes", [str "shp", str "datFile"]),
    ("loadBitmap", [str "file", num "param"]),
    ("loadMonsterShapes", [str "file", num "monsterId", num "p2"]),
    ("loadTimScript", [str "scriptId", str "stringId"]),
    ("initAnimStruct",
      [str "file", num "index", num "x", num "y", num "offscreenBuffer", num "wsaFlags"]),
    ("checkRectForMousePointer", [num "xMin", num "yMin", num "xMax", num "yMax"]),
    ("setGameFlag", [num "flag", num "val"]),
    ("setGlobalVar", [num "how", num "a", num "b"]),
    ("testGameFlag", [num "flag"]),
    ("loadMusicTrack", [num "file"]),
    ("playDialogueTalkText", [strid "stringId"]),
    ("stopTimScript", [num "scriptId"]),
    ("runTimScript", [num "scriptId", num "loop"]),
    ("clearDialogueField", []),
    ("playCharacterScriptChat", [num "charId", num "mode", str "stringId"])]

/-- The registry of the script engine's builtin functions. -/
def standard : Registry :=
  Table.ofList (standardFunctions.map fun f => (f.1, ⟨f.2⟩))

end Unstack.Registry
