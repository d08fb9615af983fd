/-! Numerals: decimal digits, other digits, and other numeric characters. -/
namespace Polyscan.Text

/-- The zero of every run of ten decimal digits. -/
def decimalZeros : Array Nat := #[
  48, 1632, 1776, 1984, 2406, 2534, 2662, 2790, 2918, 3046, 3174, 3302, 3430, 3558, 3664, 3792,
  3872, 4160, 4240, 6112, 6160, 6470, 6608, 6784, 6800, 6992, 7088, 7232, 7248, 42528, 43216,
  43264, 43472, 43504, 43600, 44016, 65296, 66720, 68912, 69734, 69872, 69942, 70096, 70384,
  70736, 70864, 71248, 71360, 71472, 71904, 72016, 72784, 73040, 73120, 92768, 92864, 93008,
  120782, 120792, 120802, 120812, 120822, 123200, 123632, 125264, 130032]

/-- Digits outside the decimal runs (superscripts, circled digits, …), by the points where
membership changes. -/
def otherDigitBounds : Array Nat := #[
  178, 180, 185, 186, 4969, 4978, 6618, 6619, 8304, 8305, 8308, 8314, 8320, 8330, 9312, 9321,
  9332, 9341, 9352, 9361, 9450, 9451, 9461, 9470, 9471, 9472, 10102, 10111, 10112, 10121, 10122,
  10131, 68160, 68164, 69216, 69225, 69714, 69723, 127232, 127243]

/-- Numeric characters that are neither letters nor decimal digits, by the points where
membership changes. -/
def otherNumericBounds : Array Nat := #[
  178, 180, 185, 186, 188, 191, 2548, 2554, 2930, 2936, 3056, 3059, 3192, 3199, 3416, 3423, 3440,
  3449, 3882, 3892, 4969, 4989, 5870, 5873, 6128, 6138, 6618, 6619, 8304, 8305, 8308, 8314, 8320,
  8330, 8528, 8579, 8581, 8586, 9312, 9372, 9450, 9472, 10102, 10132, 11517, 11518, 12295, 12296,
  12321, 12330, 12344, 12347, 12690, 12694, 12832, 12842, 12872, 12880, 12881, 12896, 12928,
  12938, 12977, 12992, 42726, 42736, 43056, 43062, 65799, 65844, 65856, 65913, 65930, 65932,
  66273, 66300, 66336, 66340, 66369, 66370, 66378, 66379, 66513, 66518, 67672, 67680, 67705,
  67712, 67751, 67760, 67835, 67840, 67862, 67868, 68028, 68030, 68032, 68048, 68050, 68096,
  68160, 68169, 68221, 68223, 68253, 68256, 68331, 68336, 68440, 68448, 68472, 68480, 68521,
  68528, 68858, 68864, 69216, 69247, 69405, 69415, 69457, 69461, 69573, 69580, 69714, 69734,
  70113, 70133, 71482, 71484, 71914, 71923, 72794, 72813, 73664, 73685, 74752, 74863, 93019,
  93026, 93824, 93847, 119520, 119540, 119648, 119673, 125127, 125136, 126065, 126124, 126125,
  126128, 126129, 126133, 126209, 126254, 126255, 126270, 127232, 127245]

end Polyscan.Text
