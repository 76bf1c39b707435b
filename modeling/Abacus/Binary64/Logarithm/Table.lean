namespace Abacus.Binary64.Logarithm

structure Anchor where
  reciprocal : UInt64
  logarithm : UInt64
  deriving DecidableEq, Repr

/-- The range from 11/16 to 11/8 falls into 64 pieces of equally many binary64 numbers, with an anchor
in each. The anchors were chosen so that hardly anything of their logarithms is lost to rounding. -/
def anchors : Array Anchor := #[
  ⟨0x3ff724286bb1acf8, 0xbfe1095feecdb000⟩, ⟨0x3ff6e1f766d2cca1, 0xbfe08494bd76d000⟩,
  ⟨0x3ff6a13d0e30d48a, 0xbfe00143aee8f800⟩, ⟨0x3ff661ec32d06c85, 0xbfdefec5360b4000⟩,
  ⟨0x3ff623fa951198f8, 0xbfddfdd91ab7e000⟩, ⟨0x3ff5e75ba4cf026c, 0xbfdcffae0cc79000⟩,
  ⟨0x3ff5ac055a214fb8, 0xbfdc043811fda000⟩, ⟨0x3ff571ed0f166e1e, 0xbfdb0b67323ae000⟩,
  ⟨0x3ff53909590bf835, 0xbfda152f5a2db000⟩, ⟨0x3ff5014fed61addd, 0xbfd9217f5af86000⟩,
  ⟨0x3ff4cab88e487bd0, 0xbfd8304db0719000⟩, ⟨0x3ff49539b4334fee, 0xbfd74189f9a9e000⟩,
  ⟨0x3ff460cbdfafd569, 0xbfd6552bb5199000⟩, ⟨0x3ff42d664ee4b953, 0xbfd56b23a29b1000⟩,
  ⟨0x3ff3fb01111dd8a6, 0xbfd483650f5fa000⟩, ⟨0x3ff3c995b70c5836, 0xbfd39de937f6a000⟩,
  ⟨0x3ff3991c4ab6fd4a, 0xbfd2baa1538d6000⟩, ⟨0x3ff3698e0ce099b5, 0xbfd1d98340ca4000⟩,
  ⟨0x3ff33ae48213e7b2, 0xbfd0fa853a40e000⟩, ⟨0x3ff30d191985bdb1, 0xbfd01d9c32e73000⟩,
  ⟨0x3ff2e025cab271d7, 0xbfce857da2fa6000⟩, ⟨0x3ff2b404cf13cd82, 0xbfccd3c8633d8000⟩,
  ⟨0x3ff288b02c7ccb50, 0xbfcb26034c14a000⟩, ⟨0x3ff25e2263944de5, 0xbfc97c1c2f4fe000⟩,
  ⟨0x3ff234563d8615b1, 0xbfc7d6023f800000⟩, ⟨0x3ff20b46e33eaf38, 0xbfc633a71a05e000⟩,
  ⟨0x3ff1e2eefdcda3dd, 0xbfc494f5e9570000⟩, ⟨0x3ff1bb4a580b3930, 0xbfc2f9e424e0a000⟩,
  ⟨0x3ff19453847f2200, 0xbfc162595afdc000⟩, ⟨0x3ff16e06c0d5d73c, 0xbfbf9c9a75bd8000⟩,
  ⟨0x3ff1485f47b7e4c2, 0xbfbc7b575bf9c000⟩, ⟨0x3ff12358ad0085d1, 0xbfb960c60ff48000⟩,
  ⟨0x3ff0fef00f532227, 0xbfb64ce247b60000⟩, ⟨0x3ff0db2077d03a8f, 0xbfb33f78b2014000⟩,
  ⟨0x3ff0b7e6d65980d9, 0xbfb0387d1a42c000⟩, ⟨0x3ff0953efe7b408d, 0xbfaa6f9208b50000⟩,
  ⟨0x3ff07325cac53b83, 0xbfa47a954f770000⟩, ⟨0x3ff05197e40d1b5c, 0xbf9d23a8c50c0000⟩,
  ⟨0x3ff03091c1208ea2, 0xbf916a2629780000⟩, ⟨0x3ff0101025b37e21, 0xbf7720f8d8e80000⟩,
  ⟨0x3fefc07ef9caa76b, 0x3f86fe53b1500000⟩, ⟨0x3fef4465d3f6f184, 0x3fa11ccce10f8000⟩,
  ⟨0x3feecc079f84107f, 0x3fac4dfc8c8b8000⟩, ⟨0x3fee573a99975ae8, 0x3fb3aa321e574000⟩,
  ⟨0x3fede5d6f0bd3de6, 0x3fb918a0d08b8000⟩, ⟨0x3fed77b681ff38b3, 0x3fbe72e9da044000⟩,
  ⟨0x3fed0cb5724de943, 0x3fc1dcd2507f6000⟩, ⟨0x3feca4b2dc0e7563, 0x3fc476ab03dea000⟩,
  ⟨0x3fec3f8ee8d6cb51, 0x3fc7074377e22000⟩, ⟨0x3febdd2b4f020c4c, 0x3fc98ede8ba94000⟩,
  ⟨0x3feb7d6c006015ca, 0x3fcc0db86ad2e000⟩, ⟨0x3feb20366e2e338f, 0x3fce840aafcee000⟩,
  ⟨0x3feac57026295039, 0x3fd0790ab4678000⟩, ⟨0x3fea6d01bc2731dd, 0x3fd1ac056801c000⟩,
  ⟨0x3fea16d3bc3ff18b, 0x3fd2db11d4fee000⟩, ⟨0x3fe9c2d14967fead, 0x3fd406464ec58000⟩,
  ⟨0x3fe970e4f47c9902, 0x3fd52dbe093af000⟩, ⟨0x3fe920fb3982bcf2, 0x3fd651902050d000⟩,
  ⟨0x3fe8d30187f759f1, 0x3fd771d2cdeaf000⟩, ⟨0x3fe886e5ebb9f66d, 0x3fd88e9c857d9000⟩,
  ⟨0x3fe83c97b658b994, 0x3fd9a80155e16000⟩, ⟨0x3fe7f405ffc61022, 0x3fdabe186ed3d000⟩,
  ⟨0x3fe7ad22181415ca, 0x3fdbd0f2aea0e000⟩, ⟨0x3fe767dcf99eff8c, 0x3fdce0a43dbf4000⟩]

example : anchors.size = 64 := rfl

end Abacus.Binary64.Logarithm
