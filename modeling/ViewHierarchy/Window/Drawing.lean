import ViewHierarchy.Window.Badge

/-! How badges are drawn, and which of them are drawn only once. -/
namespace ViewHierarchy

inductive Paint where
  | color (c : Color)
  | darker (c : Color) (percent : Nat)
  | lighter (c : Color) (percent : Nat)
  | nothing

inductive DrawingStep where
  | clear
  | smoothEdges
  | brush (paint : Paint)
  | pen (paint : Paint)
  | outlinePen (paint : Paint) (width : Nat) (dashed : Bool)
  | ellipse (x y width height : Nat)
  | roundedBox (x y width height radius : Nat)
  | polygon (points : List (Nat × Nat))
  | boldFont (size : Nat)
  | centeredText (side : Nat) (text : String)
  | finish

namespace Badge

/-- Badges are squares of this side. -/
def side : Nat := 48

def outline (shape : String) (color : Color) : List DrawingStep :=
  if shape = "diamond" then
    [.polygon [(side / 2, 1), (side - 2, side / 2), (side / 2, side - 2), (1, side / 2)]]
  else if shape = "stack" then
    [ .brush (.lighter color 140), .roundedBox 10 2 36 34 5, .brush (.color color),
      .roundedBox 2 12 36 34 5 ]
  else if shape = "framed" then
    [ .roundedBox 2 2 44 44 8, .brush .nothing, .outlinePen (.color "white") 1 true,
      .roundedBox 6 6 36 36 5 ]
  else if shape = "box" then [.roundedBox 2 2 44 44 4]
  else [.ellipse 2 2 44 44]

/-- Labels of up to three characters are written large. -/
def fontSize (label : String) : Nat := if label.length < 4 then 10 else 7

def drawing (b : Badge) : List DrawingStep :=
  [.clear, .smoothEdges, .brush (.color b.color), .outlinePen (.darker b.color 160) 2 false] ++
    outline b.shape b.color ++
    [.pen (.color "white"), .boldFont (fontSize b.label), .centeredText side b.label, .finish]

/-- Each badge with the place of the same badge before it, if there is one. -/
def withRepeats (earlier : List Badge) : List Badge → List (Badge × Option Nat)
  | [] => []
  | b :: rest => (b, earlier.idxOf? b) :: withRepeats (earlier ++ [b]) rest

end Badge

end ViewHierarchy
