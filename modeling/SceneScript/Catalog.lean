import SceneScript.Value.Basic

/-!
# Identifiers of the application

The names by which the application knows tools, kinds of data, controls and options. Each group
lists its identifiers under the names they go by in a scene script.
-/

namespace SceneScript

namespace Catalog

/-- Tools, by the application's registry. -/
def tools : List (String × String) := [
  ("MEDIA_IN", "MediaIn"), ("MEDIA_OUT", "MediaOut"), ("LOADER", "Loader"), ("SAVER", "Saver"),
  ("BACKGROUND", "Background"), ("TEXT", "TextPlus"), ("FAST_NOISE", "FastNoise"),
  ("PAINT", "Paint"), ("COLOR_CORRECTOR", "ColorCorrector"), ("COLOR_CURVES", "ColorCurves"),
  ("BRIGHTNESS_CONTRAST", "BrightnessContrast"), ("BLUR", "Blur"), ("TRANSFORM", "Transform"),
  ("MERGE", "Merge"), ("DISSOLVE", "Dissolve"), ("CHANNEL_BOOLEANS", "ChannelBooleans"),
  ("MATTE_CONTROL", "MatteControl"), ("RECTANGLE_MASK", "RectangleMask"),
  ("ELLIPSE_MASK", "EllipseMask"), ("POLYGON_MASK", "PolylineMask"),
  ("BSPLINE_MASK", "BSplineMask"), ("S_RECTANGLE", "sRectangle"), ("S_ELLIPSE", "sEllipse"),
  ("S_NGON", "sNGon"), ("S_RENDER", "sRender"), ("S_MERGE", "sMerge"),
  ("S_TRANSFORM", "sTransform"), ("S_OUTLINE", "sOutline"), ("BEZIER_SPLINE", "BezierSpline"),
  ("XY_PATH", "XYPath"), ("PUBLISH_NUMBER", "PublishNumber"), ("PUBLISH_TEXT", "PublishText"),
  ("PUBLISH_POINT", "PublishPoint"), ("PUBLISH_FUID", "PublishFuID"), ("MACRO", "MacroOperator")]

/-- Kinds of data that an input takes. -/
def dataTypes : List (String × String) :=
  [("NUMBER", "Number"), ("POINT", "Point"), ("TEXT", "Text")]

/-- Controls for an input. -/
def inputControls : List (String × String) :=
  [("SLIDER", "SliderControl"), ("COMBO", "ComboControl"), ("SCREW", "ScrewControl")]

/-- Options with names of their own: blur filters and apply modes. -/
def options : List (String × String) := [
  ("fast_gaussian", "Fast Gaussian"), ("gaussian", "Gaussian"), ("multi_box", "Multi-box"),
  ("box_filter", "Box"), ("bartlett", "Bartlett"), ("merge", "Merge"), ("add", "Add"),
  ("subtract", "Subtract"), ("minimum", "Minimum"), ("maximum", "Maximum"),
  ("average", "Average"), ("multiply", "Multiply"), ("replace", "Replace"),
  ("invert", "Invert"), ("copy", "Copy"), ("ignore", "Ignore")]

/-- The groups of identifiers that are plain names. -/
def groups : List (String × List (String × String)) :=
  [("tool", tools), ("data_type", dataTypes), ("input_control", inputControls)]

/-- The identifier that goes by `name` in a group. -/
def identifier? (group name : String) : Option String := (groups.lookup group).bind (·.lookup name)

/-- The option that goes by a name; other names stand for themselves. -/
def option (name : String) : String := (options.lookup name).getD name

end Catalog

end SceneScript
