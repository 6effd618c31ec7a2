import TileWalk.Catalog.Basic

/-!
The levels that come with the game: each teaches one more thing about programs, from walking ahead
to calling a subroutine.
-/

namespace TileWalk.Catalog

def builtinDocument : Document where
  version := 1
  levels :=
    [{ key := "first-steps"
       description := "Walk forward until you reach the goal."
       rows := [[1, 1, 1, 9]]
       start := ⟨0, 0, .right⟩
       capacities := [4, 0, 0]
       callable := none },
     { key := "corner"
       description := "Turn the corner to reach the goal."
       rows :=
         [[1, 1, 1, 0],
          [0, 0, 1, 0],
          [0, 0, 9, 0]]
       start := ⟨0, 0, .right⟩
       capacities := [5, 0, 0]
       callable := none },
     { key := "long-hall"
       description := "Two slots are not enough to walk this hall. Let F1 call itself."
       rows := [[1, 1, 1, 1, 1, 1, 1, 9]]
       start := ⟨0, 0, .right⟩
       capacities := [2, 0, 0]
       callable := some ["F1"] },
     { key := "staircase"
       description := "Turn right on green and left on red."
       rows :=
         [[1, 2, 0, 0],
          [0, 3, 2, 0],
          [0, 0, 3, 9]]
       start := ⟨0, 0, .right⟩
       capacities := [4, 0, 0]
       callable := some ["F1"] },
     { key := "spiral"
       description := "Every side of the square is the same. Put one side in F2."
       rows :=
         [[1, 1, 1, 1],
          [0, 0, 0, 1],
          [0, 0, 0, 1],
          [9, 1, 1, 1]]
       start := ⟨0, 0, .right⟩
       capacities := [3, 4, 0]
       callable := some ["F1", "F2"] }]

def builtin : Catalog := (ofDocument builtinDocument).toOption.getD ⟨[]⟩

/-- The built-in document has no defect. -/
theorem toOption_ofDocument_builtinDocument :
    (ofDocument builtinDocument).toOption = some builtin := by
  decide +kernel

end TileWalk.Catalog
