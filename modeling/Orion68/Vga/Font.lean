import Mathlib.Data.UInt
import Mathlib.Data.List.GetD
import Mathlib.Tactic.Common

namespace Orion68.Vga

/-- `font_8x16`: one number for each of its 130 characters, the top row first. -/
def glifos : List Nat := [
  0x00000000000000000000000000000000, 0xffff0000000000000000000000000000, 0x00000000000000ffff00000000000000,
  0xc0c0c0c0c0c0c0c0c0c0c0c0c0c0c0c0, 0x18181818181818181818181818181818, 0xc0c0c0c0c0c0c0c00000000000000000,
  0x0000000000000000c0c0c0c0c0c0c0c0, 0x00000000000000f8f818181818181818, 0x000000000000001f1f18181818181818,
  0x181818181818181f1f00000000000000, 0x18181818181818f8f800000000000000, 0x18181818181818ffff18181818181818,
  0x18181818181818ffff00000000000000, 0x00000000000000ffff18181818181818, 0x18181818181818f8f818181818181818,
  0x181818181818181f1f18181818181818, 0x0080c0e0f0f8fef8f0e0c08000000000, 0x0002060e1e3efe3e1e0e060200000000,
  0x0000183c7e1818187e3c180000000000, 0x00006666666666666600666600000000, 0x00007fdbdbdb7b1b1b1b1b1b00000000,
  0x007cc660386cc6c66c380cc67c000000, 0x0000000000000000fefefefe00000000, 0x0000183c7e1818187e3c180000000000,
  0x0000183c7e1818181818181800000000, 0x0000181818181818187e3c1800000000, 0x0000000000180cfefe0c180000000000,
  0x00000000003060fe7e30180000000000, 0x000000000000c0c0c0fe000000000000, 0x00000000002466ff6624000000000000,
  0x000000001038387c7cfefe0000000000, 0x00000000fefe7c7c3838100000000000, 0x00000000000000000000000000000000,
  0x0000183c3c3c18181800181800000000, 0x00666666240000000000000000000000, 0x0000006c6cfe6c6c6cfe6c6c00000000,
  0x18187cc6c2c07c060686c67c18180000, 0x00000000c2c60c183060c68600000000, 0x0000386c6c3876dccccccc7600000000,
  0x00303030600000000000000000000000, 0x00000c18303030303030180c00000000, 0x000030180c0c0c0c0c0c183000000000,
  0x0000000000663cff3c66000000000000, 0x000000000018187e1818000000000000, 0x00000000000000000018181830000000,
  0x000000000000007e0000000000000000, 0x00000000000000000000181800000000, 0x0000000002060c183060c08000000000,
  0x00007cc6c6cedef6e6c6c67c00000000, 0x00001838781818181818187e00000000, 0x00007cc6060c183060c0c6fe00000000,
  0x00007cc606063c060606c67c00000000, 0x00000c1c3c6cccfe0c0c0c1e00000000, 0x0000fec0c0c0fc060606c67c00000000,
  0x00003860c0c0fcc6c6c6c67c00000000, 0x0000fec606060c183030303000000000, 0x00007cc6c6c67cc6c6c6c67c00000000,
  0x00007cc6c6c67e0606060c7800000000, 0x00000000181800000018180000000000, 0x00000000181800000018183000000000,
  0x000000060c18306030180c0600000000, 0x00000000007e00007e00000000000000, 0x0000006030180c060c18306000000000,
  0x00007cc6c60c18181800181800000000, 0x00007cc6c6c6dedededcc07c00000000, 0x000010386cc6c6fec6c6c6c600000000,
  0x0000fc6666667c66666666fc00000000, 0x00003c66c2c0c0c0c0c2663c00000000, 0x0000f86c6666666666666cf800000000,
  0x0000fe6662687868606266fe00000000, 0x0000fe6662687868606060f000000000, 0x00003c66c2c0c0dec6c6663a00000000,
  0x0000c6c6c6c6fec6c6c6c6c600000000, 0x00003c18181818181818183c00000000, 0x00001e0c0c0c0c0ccccccc7800000000,
  0x0000e666666c78786c6666e600000000, 0x0000f06060606060606266fe00000000, 0x0000c3e7ffffdbc3c3c3c3c300000000,
  0x0000c6e6f6fedecec6c6c6c600000000, 0x00007cc6c6c6c6c6c6c6c67c00000000, 0x0000fc6666667c60606060f000000000,
  0x00007cc6c6c6c6c6c6d6de7c0c0e0000, 0x0000fc6666667c6c666666e600000000, 0x00007cc6c660380c06c6c67c00000000,
  0x0000ffdb991818181818183c00000000, 0x0000c6c6c6c6c6c6c6c6c67c00000000, 0x0000c3c3c3c3c3c3c3663c1800000000,
  0x0000c3c3c3c3c3dbdbff666600000000, 0x0000c3c3663c18183c66c3c300000000, 0x0000c3c3c3663c181818183c00000000,
  0x0000ffc3860c183060c1c3ff00000000, 0x00003c30303030303030303c00000000, 0x00000080c0e070381c0e060200000000,
  0x00003c0c0c0c0c0c0c0c0c3c00000000, 0x10386cc6000000000000000000000000, 0x00000000000000000000000000ff0000,
  0x30301800000000000000000000000000, 0x0000000000780c7ccccccc7600000000, 0x0000e06060786c666666667c00000000,
  0x00000000007cc6c0c0c0c67c00000000, 0x00001c0c0c3c6ccccccccc7600000000, 0x00000000007cc6fec0c0c67c00000000,
  0x0000386c6460f060606060f000000000, 0x000000000076cccccccccc7c0ccc7800, 0x0000e060606c7666666666e600000000,
  0x00001818003818181818183c00000000, 0x00000606000e06060606060666663c00, 0x0000e06060666c78786c66e600000000,
  0x00003818181818181818183c00000000, 0x0000000000e6ffdbdbdbdbdb00000000, 0x0000000000dc66666666666600000000,
  0x00000000007cc6c6c6c6c67c00000000, 0x0000000000dc66666666667c6060f000, 0x000000000076cccccccccc7c0c0c1e00,
  0x0000000000dc7666606060f000000000, 0x00000000007cc660380cc67c00000000, 0x0000103030fc30303030361c00000000,
  0x0000000000cccccccccccc7600000000, 0x0000000000c3c3c3c3663c1800000000, 0x0000000000c3c3c3dbdbff6600000000,
  0x0000000000c3663c183c66c300000000, 0x0000000000c6c6c6c6c6c67e060cf800, 0x0000000000fecc183060c6fe00000000,
  0x00000e18181870181818180e00000000, 0x00001818181818181818181800000000, 0x0000701818180e181818187000000000,
  0x000076dc000000000000000000000000, 0x0000000010386cc6c6c6fe0000000000, 0x00c0c0c0c0c0c0c0c0c0c0c0c0c00000,
  0x000000000000000000000000ffff0000]

/-- The byte at an offset of `font_8x16`; what is behind the table is `alem`. -/
def font8x16 (alem : Nat → UInt8) (i : Nat) : UInt8 :=
  if i < 2080 then UInt8.ofNat (glifos.getD (i / 16) 0 / 256 ^ (15 - i % 16)) else alem i

example : (List.range 16).map (fun row => font8x16 (fun _ => 0) (0x41 * 16 + row)) =
    [0x00, 0x00, 0x10, 0x38, 0x6C, 0xC6, 0xC6, 0xFE, 0xC6, 0xC6, 0xC6, 0xC6, 0x00, 0x00, 0x00, 0x00] := by
  decide

end Orion68.Vga
